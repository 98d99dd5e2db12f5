import DistStore.Lib.Program
import Mathlib.Algebra.BigOperators.Group.List.Basic
import Mathlib.Data.List.Forall2
import Mathlib.Logic.Relation

/-!
# Programs that share a store

The threads of a pool run programs over one store.  A step answers the next
call of some thread from the store, so a run is any interleaving of the
threads' calls.  A script says which effects a program has on every path on
which it returns; what the scripts add up to is what a finished pool has done
to the store.
-/

set_option autoImplicit false

namespace Program

variable {I : Interface} {ρ α β σ E : Type}

/-! ## Scripts -/

/-- With admissible answers, the calls with an effect are those of the script,
in order, on every path that returns. -/
def Prog.Emits (admissible : (request : I.Call) → I.Answer request → Prop)
    (emit : I.Call → Option E) : Prog I ρ α → List E → Prop
  | .ret _, script => script = []
  | .stop _, _ => True
  | .call request next, script =>
      match emit request with
      | none => ∀ answer, admissible request answer → (next answer).Emits admissible emit script
      | some effect => ∃ rest, script = effect :: rest ∧
          ∀ answer, admissible request answer → (next answer).Emits admissible emit rest

section Scripts

variable {admissible : (request : I.Call) → I.Answer request → Prop} {emit : I.Call → Option E}
  {request : I.Call} {next : I.Answer request → Prog I ρ α} {script : List E}

theorem Prog.emits_call_silent (silent : emit request = none) :
    (Prog.call request next).Emits admissible emit script ↔
      ∀ answer, admissible request answer → (next answer).Emits admissible emit script := by
  simp [Prog.Emits, silent]

theorem Prog.emits_call_effect {effect : E} (isEffect : emit request = some effect) :
    (Prog.call request next).Emits admissible emit script ↔
      ∃ rest, script = effect :: rest ∧
        ∀ answer, admissible request answer → (next answer).Emits admissible emit rest := by
  simp [Prog.Emits, isEffect]

theorem Prog.Emits.bind {program : Prog I ρ α} {continue_ : α → Prog I ρ β} {first second : List E}
    (emits : program.Emits admissible emit first)
    (continued : ∀ value, (continue_ value).Emits admissible emit second) :
    (program >>= continue_).Emits admissible emit (first ++ second) := by
  induction program generalizing first with
  | ret value =>
      cases emits
      exact continued value
  | stop reason => trivial
  | call request next inductionHypothesis =>
      rw [Prog.call_bind]
      rcases isEffect : emit request with _ | effect
      · rw [Prog.emits_call_silent isEffect] at emits ⊢
        exact fun answer isAdmissible => inductionHypothesis answer (emits answer isAdmissible)
      · rw [Prog.emits_call_effect isEffect] at emits ⊢
        obtain ⟨rest, rfl, later⟩ := emits
        exact ⟨rest ++ second, rfl,
          fun answer isAdmissible => inductionHypothesis answer (later answer isAdmissible)⟩

end Scripts

/-! ## Pools -/

/-- The calls a thread has made, in order, and what is left of its program. -/
structure Thread (I : Interface) (ρ α : Type) where
  made : List I.Call
  rest : Prog I ρ α

structure Pool (σ : Type) (I : Interface) (ρ α : Type) where
  store : σ
  threads : List (Thread I ρ α)

namespace Pool

/-- The next call of one thread is answered; `serves` says which answers the
store may give and which store it leaves. -/
inductive Step (serves : σ → (request : I.Call) → I.Answer request → σ → Prop) :
    Pool σ I ρ α → Pool σ I ρ α → Prop where
  | call (before after : List (Thread I ρ α)) (made : List I.Call) (request : I.Call)
      (next : I.Answer request → Prog I ρ α) (answer : I.Answer request) (store store' : σ)
      (served : serves store request answer store') :
      Step serves ⟨store, before ++ ⟨made, .call request next⟩ :: after⟩
        ⟨store', before ++ ⟨made ++ [request], next answer⟩ :: after⟩

def start (store : σ) (programs : List (Prog I ρ α)) : Pool σ I ρ α :=
  ⟨store, programs.map fun program => ⟨[], program⟩⟩

/-- Any interleaving. -/
abbrev Reachable (serves : σ → (request : I.Call) → I.Answer request → σ → Prop) :
    Pool σ I ρ α → Pool σ I ρ α → Prop :=
  Relation.ReflTransGen (Step serves)

/-- A run goes on with the next call of the thread between `before` and `after`. -/
theorem reachable_call {serves : σ → (request : I.Call) → I.Answer request → σ → Prop}
    {origin : Pool σ I ρ α} {store store' : σ} (before after : List (Thread I ρ α))
    {made : List I.Call} {request : I.Call} {next : I.Answer request → Prog I ρ α}
    {answer : I.Answer request}
    (reached : Reachable serves origin ⟨store, before ++ ⟨made, .call request next⟩ :: after⟩)
    (served : serves store request answer store') :
    Reachable serves origin ⟨store', before ++ ⟨made ++ [request], next answer⟩ :: after⟩ :=
  reached.tail (.call before after made request next answer store store' served)

/-- All programs have returned. -/
def Finished (pool : Pool σ I ρ α) : Prop :=
  ∀ thread ∈ pool.threads, ∃ value, thread.rest = .ret value

end Pool

/-! ## What one program does next -/

/-- A program makes these calls and goes on with `rest`. -/
inductive Prog.Steps (serves : σ → (request : I.Call) → I.Answer request → σ → Prop) :
    σ → Prog I ρ α → List I.Call → σ → Prog I ρ α → Prop where
  | refl (store : σ) (program : Prog I ρ α) : Steps serves store program [] store program
  | call {store middle store' : σ} {request : I.Call} {next : I.Answer request → Prog I ρ α}
      {answer : I.Answer request} {calls : List I.Call} {rest : Prog I ρ α}
      (served : serves store request answer middle)
      (later : Steps serves middle (next answer) calls store' rest) :
      Steps serves store (.call request next) (request :: calls) store' rest

section Steps

variable {serves : σ → (request : I.Call) → I.Answer request → σ → Prop} {store middle store' : σ}
  {program between rest : Prog I ρ α} {calls more : List I.Call}

theorem Prog.Steps.trans (first : program.Steps serves store calls middle between)
    (second : between.Steps serves middle more store' rest) :
    program.Steps serves store (calls ++ more) store' rest := by
  induction first with
  | refl => exact second
  | call served later inductionHypothesis => exact .call served (inductionHypothesis second)

theorem Prog.Steps.bind (steps : program.Steps serves store calls store' rest)
    (continue_ : α → Prog I ρ β) :
    (program >>= continue_).Steps serves store calls store' (rest >>= continue_) := by
  induction steps with
  | refl => exact .refl _ _
  | call served later inductionHypothesis => exact .call served inductionHypothesis

/-- A run with calls that leave the store as it is. -/
theorem Prog.steps_of_outcome {answer : (request : I.Call) → I.Answer request} {value : α}
    (returned : program.outcome answer = .returned value)
    (served : ∀ request ∈ program.trace answer, serves store request (answer request) store) :
    program.Steps serves store (program.trace answer) store (.ret value) := by
  induction program with
  | ret result =>
      cases returned
      exact .refl _ _
  | stop reason => cases returned
  | call request next inductionHypothesis =>
      rw [Prog.trace_call, List.forall_mem_cons] at served
      exact .call served.1 (inductionHypothesis _ returned served.2)

/-- A thread goes on while the others wait. -/
theorem Pool.reachable_steps {origin : Pool σ I ρ α} (before after : List (Thread I ρ α))
    {made : List I.Call} (reached : Pool.Reachable serves origin ⟨store, before ++ ⟨made, program⟩ :: after⟩)
    (steps : program.Steps serves store calls store' rest) :
    Pool.Reachable serves origin ⟨store', before ++ ⟨made ++ calls, rest⟩ :: after⟩ := by
  induction steps generalizing made with
  | refl =>
      rw [List.append_nil]
      exact reached
  | @call _ _ _ request _ _ calls _ served later inductionHypothesis =>
      have went := inductionHypothesis (Pool.reachable_call before after reached served)
      rwa [List.append_assoc, List.singleton_append] at went

end Steps

/-- The effects a thread has had. -/
def Thread.effects (emit : I.Call → Option E) (thread : Thread I ρ α) : List E :=
  thread.made.filterMap emit

/-- The thread has gone some way along the script. -/
def Thread.Follows (admissible : (request : I.Call) → I.Answer request → Prop)
    (emit : I.Call → Option E) (script : List E) (thread : Thread I ρ α) : Prop :=
  ∃ pending, script = thread.effects emit ++ pending ∧ thread.rest.Emits admissible emit pending

section Runs

variable {serves : σ → (request : I.Call) → I.Answer request → σ → Prop}
  {admissible : (request : I.Call) → I.Answer request → Prop} {emit : I.Call → Option E}
  {store : σ} {programs : List (Prog I ρ α)} {scripts : List (List E)} {pool : Pool σ I ρ α}

theorem Thread.Follows.step {script : List E} {made : List I.Call} {request : I.Call}
    {next : I.Answer request → Prog I ρ α} {answer : I.Answer request}
    (follows : Thread.Follows admissible emit script ⟨made, .call request next⟩)
    (isAdmissible : admissible request answer) :
    Thread.Follows admissible emit script ⟨made ++ [request], next answer⟩ := by
  obtain ⟨pending, rfl, emits⟩ := follows
  rcases isEffect : emit request with _ | effect
  · have later := (Prog.emits_call_silent isEffect).mp emits answer isAdmissible
    exact ⟨pending, by simp [Thread.effects, isEffect], later⟩
  · obtain ⟨rest, rfl, later⟩ := (Prog.emits_call_effect isEffect).mp emits
    exact ⟨rest, by simp [Thread.effects, isEffect], later answer isAdmissible⟩

/-- One element of a related list is moved and the others are kept. -/
theorem forall₂_replace {γ δ : Type} {related related' : γ → δ → Prop} {left : List γ} {old new : δ}
    {before after : List δ} (all : List.Forall₂ related left (before ++ old :: after))
    (keep : ∀ item other, related item other → related' item other)
    (move : ∀ item, related item old → related' item new) :
    List.Forall₂ related' left (before ++ new :: after) := by
  induction before generalizing left with
  | nil =>
      cases all with
      | cons here rest => exact .cons (move _ here) (rest.imp keep)
  | cons head before inductionHypothesis =>
      cases all with
      | cons here rest => exact .cons (keep _ _ here) (inductionHypothesis rest)

theorem exists_pair_of_forall₂ {γ δ : Type} {related : γ → δ → Prop} {left : List γ}
    {right : List δ} (all : List.Forall₂ related left right) {item : δ} (member : item ∈ right) :
    ∃ other, (other, item) ∈ left.zip right ∧ related other item := by
  induction all with
  | nil => cases member
  | cons here rest inductionHypothesis =>
      cases List.mem_cons.mp member with
      | inl first =>
          subst first
          exact ⟨_, List.mem_cons_self, here⟩
      | inr later =>
          obtain ⟨other, isPair, isRelated⟩ := inductionHypothesis later
          exact ⟨other, List.mem_cons_of_mem _ isPair, isRelated⟩

/-- Every thread follows its script. -/
theorem Pool.follows_of_reachable
    (reached : Pool.Reachable serves (.start store programs) pool)
    (admits : ∀ store request answer store', serves store request answer store' →
      admissible request answer)
    (emits : List.Forall₂ (fun script program => Prog.Emits admissible emit program script)
      scripts programs) :
    List.Forall₂ (Thread.Follows admissible emit) scripts pool.threads := by
  induction reached with
  | refl =>
      rw [Pool.start, List.forall₂_map_right_iff]
      exact emits.imp fun script program emits => ⟨script, rfl, emits⟩
  | tail reached step inductionHypothesis =>
      cases step with
      | call before after made request next answer store store' served =>
          exact forall₂_replace inductionHypothesis (fun _ _ same => same)
            fun script follows => follows.step (admits _ _ _ _ served)

/-- What every call preserves holds of the store of every reachable pool. -/
theorem Pool.invariant_of_reachable (invariant : σ → Prop)
    (reached : Pool.Reachable serves (.start store programs) pool) (initially : invariant store)
    (preserved : ∀ store request answer store', serves store request answer store' →
      invariant store → invariant store') : invariant pool.store := by
  induction reached with
  | refl => exact initially
  | tail reached step inductionHypothesis =>
      cases step with
      | call before after made request next answer store store' served =>
          exact preserved _ _ _ _ served inductionHypothesis

/-- What a thread relies on holds of every thread of every reachable pool, when
the other threads' calls keep it and its own calls move it along. -/
theorem Pool.threads_of_reachable {γ : Type} {related : σ → γ → Prog I ρ α → Prop} {items : List γ}
    (reached : Pool.Reachable serves (.start store programs) pool)
    (initially : List.Forall₂ (related store) items programs)
    (kept : ∀ store request answer store' item rest, serves store request answer store' →
      related store item rest → related store' item rest)
    (moved : ∀ store request answer store' item next, serves store request answer store' →
      related store item (.call request next) → related store' item (next answer)) :
    List.Forall₂ (fun item thread => related pool.store item thread.rest) items pool.threads := by
  induction reached with
  | refl =>
      rw [Pool.start, List.forall₂_map_right_iff]
      exact initially
  | tail reached step inductionHypothesis =>
      cases step with
      | call before after made request next answer store store' served =>
          exact forall₂_replace inductionHypothesis
            (fun item thread same => kept _ _ _ _ item thread.rest served same)
            fun item same => moved _ _ _ _ item next served same

/-- The effects of all threads. -/
def Pool.effects (emit : I.Call → Option E) (pool : Pool σ I ρ α) : List E :=
  pool.threads.flatMap (Thread.effects emit)

theorem Pool.effects_start : (Pool.start store programs).effects emit = [] := by
  simp [Pool.effects, Pool.start, Thread.effects]

section Values

variable {M : Type} [AddCommMonoid M] {value : σ → M} {weight : E → M}

/-- Where every call adds the weight of its effect, the store has the weight of
all effects. -/
theorem Pool.value_of_reachable
    (reached : Pool.Reachable serves (.start store programs) pool)
    (adds : ∀ store request answer store', serves store request answer store' →
      value store' = value store + ((emit request).toList.map weight).sum) :
    value pool.store = value store + ((pool.effects emit).map weight).sum := by
  induction reached with
  | refl =>
      rw [Pool.effects_start, List.map_nil, List.sum_nil, add_zero]
      rfl
  | tail reached step inductionHypothesis =>
      cases step with
      | call before after made request next answer store store' served =>
          have added := adds _ _ _ _ served
          have effect : [request].filterMap emit = (emit request).toList := by
            cases isEffect : emit request <;> simp [isEffect]
          simp only [Pool.effects, Thread.effects, List.flatMap_append, List.flatMap_cons,
            List.filterMap_append, List.map_append, List.sum_append, effect] at inductionHypothesis ⊢
          rw [added, inductionHypothesis]
          simp only [add_assoc, add_left_comm, add_comm]

end Values

/-- A finished thread has had the effects of its script. -/
theorem Thread.Follows.finished {script : List E} {thread : Thread I ρ α}
    (follows : Thread.Follows admissible emit script thread) {result : α}
    (returned : thread.rest = .ret result) : thread.effects emit = script := by
  obtain ⟨pending, rfl, emits⟩ := follows
  rw [returned] at emits
  cases emits
  exact (List.append_nil _).symm

theorem flatMap_effects_of_finished {threads : List (Thread I ρ α)}
    (follows : List.Forall₂ (Thread.Follows admissible emit) scripts threads)
    (finished : ∀ thread ∈ threads, ∃ value, thread.rest = .ret value) :
    threads.flatMap (Thread.effects emit) = scripts.flatten := by
  induction follows with
  | nil => rfl
  | cons here rest inductionHypothesis =>
      obtain ⟨value, returned⟩ := finished _ List.mem_cons_self
      have later := inductionHypothesis fun thread member =>
        finished thread (List.mem_cons_of_mem _ member)
      rw [List.flatMap_cons, List.flatten_cons, here.finished returned, later]

/-- A finished pool has had the effects of all scripts. -/
theorem Pool.effects_of_finished
    (follows : List.Forall₂ (Thread.Follows admissible emit) scripts pool.threads)
    (finished : pool.Finished) : pool.effects emit = scripts.flatten :=
  flatMap_effects_of_finished follows finished

end Runs

end Program
