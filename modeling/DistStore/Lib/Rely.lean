import DistStore.Lib.Pool

/-!
# Programs among others

While a program runs over a shared store, other programs change it between its
calls.  What they may do is a relation `rely` on stores.  A program upholds a
postcondition when it reaches it whatever the others do within `rely`, and keeps
to `rely` itself; then so does every thread of a pool of such programs.
-/

set_option autoImplicit false

namespace Program

variable {I : Interface} {ρ α β σ : Type}

/-- Calls that are made in a store of `seen`. -/
def Within (seen : σ → Prop) (serves : σ → (request : I.Call) → I.Answer request → σ → Prop) :
    σ → (request : I.Call) → I.Answer request → σ → Prop :=
  fun store request answer store' => seen store ∧ serves store request answer store'

section Passed

variable {serves : σ → (request : I.Call) → I.Answer request → σ → Prop}
  {origin pool : Pool σ I ρ α}

/-- The stores of the states that a run from `origin` to `pool` goes through. -/
def Pool.Passed (serves : σ → (request : I.Call) → I.Answer request → σ → Prop)
    (origin pool : Pool σ I ρ α) (store : σ) : Prop :=
  ∃ earlier, Pool.Reachable serves origin earlier ∧ Pool.Reachable serves earlier pool ∧
    earlier.store = store

theorem Pool.Step.within {seen : σ → Prop} {next : Pool σ I ρ α} (step : Pool.Step serves pool next)
    (met : seen pool.store) : Pool.Step (Within seen serves) pool next := by
  cases step with
  | call before after made request next answer store store' served =>
      exact .call before after made request next answer store store' ⟨met, served⟩

theorem Pool.Step.weaken {seen wider : σ → Prop} {next : Pool σ I ρ α}
    (step : Pool.Step (Within seen serves) pool next) (wide : ∀ store, seen store → wider store) :
    Pool.Step (Within wider serves) pool next := by
  cases step with
  | call before after made request next answer store store' served =>
      exact .call before after made request next answer store store' ⟨wide _ served.1, served.2⟩

/-- A run makes its calls in the stores it goes through. -/
theorem Pool.reachable_within (reached : Pool.Reachable serves origin pool) :
    Pool.Reachable (Within (Pool.Passed serves origin pool) serves) origin pool := by
  induction reached with
  | refl => exact .refl
  | tail reached step inductionHypothesis =>
      refine .tail (Relation.ReflTransGen.mono (fun _ _ earlier => ?_) _ _ inductionHypothesis)
        (step.within ⟨_, reached, .single step, rfl⟩)
      refine earlier.weaken fun store passed => ?_
      obtain ⟨middle, before, after, same⟩ := passed
      exact ⟨middle, before, after.tail step, same⟩

end Passed

/-- From `store` on, with interference before every call and behind the last
one. -/
def Prog.Upholds (serves : σ → (request : I.Call) → I.Answer request → σ → Prop)
    (rely : σ → σ → Prop) (post : α → σ → Prop) : Prog I ρ α → σ → Prop
  | .ret value, store => ∀ store', rely store store' → post value store'
  | .stop _, _ => True
  | .call request next, store => ∀ store', rely store store' → ∀ answer store'',
      serves store' request answer store'' →
        rely store' store'' ∧ (next answer).Upholds serves rely post store''

section Rules

variable {serves : σ → (request : I.Call) → I.Answer request → σ → Prop} {rely : σ → σ → Prop}
  {post : α → σ → Prop} {store : σ}

theorem Prog.upholds_ret {value : α} (holds : ∀ store', rely store store' → post value store') :
    (Prog.ret value : Prog I ρ α).Upholds serves rely post store := holds

theorem Prog.upholds_stop (reason : ρ) :
    (Prog.stop reason : Prog I ρ α).Upholds serves rely post store := trivial

theorem Prog.upholds_call {request : I.Call} {next : I.Answer request → Prog I ρ α}
    (continued : ∀ store', rely store store' → ∀ answer store'',
      serves store' request answer store'' →
        rely store' store'' ∧ (next answer).Upholds serves rely post store'') :
    (Prog.call request next).Upholds serves rely post store := continued

theorem Prog.Upholds.weaken {weaker : α → σ → Prop} {program : Prog I ρ α}
    (upholds : program.Upholds serves rely post store)
    (values : ∀ value store, post value store → weaker value store) :
    program.Upholds serves rely weaker store := by
  induction program generalizing store with
  | ret value => exact fun store' related => values value store' (upholds store' related)
  | stop reason => trivial
  | call request next inductionHypothesis =>
      intro store' related answer store'' served
      obtain ⟨kept, rest⟩ := upholds store' related answer store'' served
      exact ⟨kept, inductionHypothesis answer rest⟩

section Preorder

variable [Std.Refl rely] [IsTrans σ rely]

omit [Std.Refl rely] in
/-- What the others do beforehand does not matter. -/
theorem Prog.Upholds.stable {program : Prog I ρ α} {later : σ}
    (upholds : program.Upholds serves rely post store) (related : rely store later) :
    program.Upholds serves rely post later := by
  cases program with
  | ret value => exact fun store' next => upholds store' (IsTrans.trans _ _ _ related next)
  | stop reason => trivial
  | call request next => exact fun store' next => upholds store' (IsTrans.trans _ _ _ related next)

omit [IsTrans σ rely] in
theorem Prog.Upholds.bind {middle : β → σ → Prop} {program : Prog I ρ β}
    {continue_ : β → Prog I ρ α} (upholds : program.Upholds serves rely middle store)
    (continued : ∀ value store, middle value store →
      (continue_ value).Upholds serves rely post store) :
    (program >>= continue_).Upholds serves rely post store := by
  induction program generalizing store with
  | ret value => exact continued value store (upholds store (refl store))
  | stop reason => trivial
  | call request next inductionHypothesis =>
      intro store' related answer store'' served
      obtain ⟨kept, rest⟩ := upholds store' related answer store'' served
      exact ⟨kept, inductionHypothesis answer rest⟩

/-- Programs that keep to `rely` uphold their postconditions together. -/
theorem Pool.upholds_of_reachable {posts : List (α → σ → Prop)} {programs : List (Prog I ρ α)}
    {pool : Pool σ I ρ α} (reached : Pool.Reachable serves (.start store programs) pool)
    (upholds : List.Forall₂ (fun post program => Prog.Upholds serves rely post program store)
      posts programs) :
    rely store pool.store ∧ List.Forall₂
      (fun post thread => Prog.Upholds serves rely post thread.rest pool.store) posts
      pool.threads := by
  induction reached with
  | refl =>
      refine ⟨refl store, ?_⟩
      rw [Pool.start, List.forall₂_map_right_iff]
      exact upholds
  | tail reached step inductionHypothesis =>
      cases step with
      | call before after made request next answer store' store'' served =>
          obtain ⟨related, threads⟩ := inductionHypothesis
          have kept : rely store' store'' := by
            obtain ⟨post, -, upheld⟩ := exists_pair_of_forall₂ threads
              (List.mem_append_right before List.mem_cons_self)
            exact (upheld store' (refl store') answer store'' served).1
          refine ⟨IsTrans.trans _ _ _ related kept, forall₂_replace threads ?_ ?_⟩
          · exact fun post thread upheld => upheld.stable kept
          · exact fun post upheld => (upheld store' (refl store') answer store'' served).2

section Families

variable {γ : Type} {items : List γ} {program : γ → Prog I ρ α} {posts : γ → α → σ → Prop}
  {pool : Pool σ I ρ α}

omit [Std.Refl rely] [IsTrans σ rely] in
theorem forall₂_upholds
    (upholds : ∀ item ∈ items, (program item).Upholds serves rely (posts item) store) :
    List.Forall₂ (fun post program => Prog.Upholds serves rely post program store)
      (items.map posts) (items.map program) := by
  rw [List.forall₂_map_left_iff, List.forall₂_map_right_iff]
  exact List.forall₂_same.mpr upholds

theorem Pool.rely_of_reachable
    (reached : Pool.Reachable serves (.start store (items.map program)) pool)
    (upholds : ∀ item ∈ items, (program item).Upholds serves rely (posts item) store) :
    rely store pool.store :=
  (Pool.upholds_of_reachable reached (forall₂_upholds upholds)).1

/-- The postcondition of a thread that has returned. -/
theorem Pool.post_of_reachable
    (reached : Pool.Reachable serves (.start store (items.map program)) pool)
    (upholds : ∀ item ∈ items, (program item).Upholds serves rely (posts item) store) :
    List.Forall₂ (fun item thread => ∀ value, thread.rest = .ret value → posts item value pool.store)
      items pool.threads := by
  have held := (Pool.upholds_of_reachable reached (forall₂_upholds upholds)).2
  rw [List.forall₂_map_left_iff] at held
  refine held.imp fun item thread upheld value returned => ?_
  rw [returned] at upheld
  exact upheld pool.store (refl pool.store)

end Families

end Preorder

end Rules

end Program
