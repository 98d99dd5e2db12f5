import Mathlib.Algebra.Ring.Int.Defs
import Mathlib.Data.List.Count

/-!
# Programs that call their environment

A program is a tree: it returns a value, ends without returning, or makes a
call and goes on with the answer.  Nothing is said about what a call does; a
run is obtained by answering the calls, so that a statement about every
answer function is a statement about every outcome of the calls.
-/

set_option autoImplicit false

namespace Program

/-- The calls a program can make and the type of their answers. -/
structure Interface where
  Call : Type
  Answer : Call → Type

inductive Prog (I : Interface) (ρ α : Type) where
  | ret (value : α)
  | stop (reason : ρ)
  | call (request : I.Call) (next : I.Answer request → Prog I ρ α)

inductive Outcome (ρ α : Type) where
  | returned (value : α)
  | stopped (reason : ρ)
  deriving DecidableEq, Repr

namespace Prog

variable {I : Interface} {ρ α β γ : Type}

protected def bind : Prog I ρ α → (α → Prog I ρ β) → Prog I ρ β
  | ret value, continue_ => continue_ value
  | stop reason, _ => stop reason
  | call request next, continue_ => call request fun answer => (next answer).bind continue_

instance : Monad (Prog I ρ) where
  pure := ret
  bind := Prog.bind

@[simp] theorem pure_eq (value : α) : (pure value : Prog I ρ α) = ret value := rfl

@[simp] theorem ret_bind (value : α) (continue_ : α → Prog I ρ β) :
    ret value >>= continue_ = continue_ value := rfl

@[simp] theorem stop_bind (reason : ρ) (continue_ : α → Prog I ρ β) :
    (stop reason : Prog I ρ α) >>= continue_ = stop reason := rfl

@[simp] theorem call_bind (request : I.Call) (next : I.Answer request → Prog I ρ α)
    (continue_ : α → Prog I ρ β) :
    call request next >>= continue_ = call request fun answer => next answer >>= continue_ := rfl

theorem bind_ret (program : Prog I ρ α) : program >>= ret = program := by
  induction program with
  | ret value => rfl
  | stop reason => rfl
  | call request next inductionHypothesis =>
      rw [call_bind]
      congr 1
      funext answer
      exact inductionHypothesis answer

theorem bind_bind (program : Prog I ρ α) (first : α → Prog I ρ β) (second : β → Prog I ρ γ) :
    program >>= first >>= second = program >>= fun value => first value >>= second := by
  induction program with
  | ret value => rfl
  | stop reason => rfl
  | call request next inductionHypothesis =>
      simp only [call_bind]
      congr 1
      funext answer
      exact inductionHypothesis answer

instance : LawfulMonad (Prog I ρ) :=
  LawfulMonad.mk' (Prog I ρ) bind_ret (fun _ _ => rfl) bind_bind

/-- Make a call and return its answer. -/
def ask (request : I.Call) : Prog I ρ (I.Answer request) := call request ret

/-! ## Runs -/

/-- How the program ends when its calls are answered by `answer`. -/
def outcome (answer : (request : I.Call) → I.Answer request) : Prog I ρ α → Outcome ρ α
  | ret value => .returned value
  | stop reason => .stopped reason
  | call request next => (next (answer request)).outcome answer

/-- The calls made on the way, in order. -/
def trace (answer : (request : I.Call) → I.Answer request) : Prog I ρ α → List I.Call
  | ret _ => []
  | stop _ => []
  | call request next => request :: (next (answer request)).trace answer

section Runs

variable (answer : (request : I.Call) → I.Answer request)

@[simp] theorem outcome_ret (value : α) :
    (ret value : Prog I ρ α).outcome answer = .returned value := rfl

@[simp] theorem outcome_stop (reason : ρ) :
    (stop reason : Prog I ρ α).outcome answer = .stopped reason := rfl

@[simp] theorem trace_ret (value : α) : (ret value : Prog I ρ α).trace answer = [] := rfl

@[simp] theorem trace_stop (reason : ρ) : (stop reason : Prog I ρ α).trace answer = [] := rfl

@[simp] theorem trace_call (request : I.Call) (next : I.Answer request → Prog I ρ α) :
    (call request next).trace answer = request :: (next (answer request)).trace answer := rfl

theorem outcome_bind_returned {program : Prog I ρ α} {value : α}
    (returns : program.outcome answer = .returned value) (continue_ : α → Prog I ρ β) :
    (program >>= continue_).outcome answer = (continue_ value).outcome answer := by
  induction program with
  | ret result =>
      cases returns
      rfl
  | stop reason => simp at returns
  | call request next inductionHypothesis => exact inductionHypothesis _ returns

theorem outcome_bind_stopped {program : Prog I ρ α} {reason : ρ}
    (stops : program.outcome answer = .stopped reason) (continue_ : α → Prog I ρ β) :
    (program >>= continue_).outcome answer = .stopped reason := by
  induction program with
  | ret result => simp at stops
  | stop actual =>
      cases stops
      rfl
  | call request next inductionHypothesis => exact inductionHypothesis _ stops

theorem trace_bind_returned {program : Prog I ρ α} {value : α}
    (returns : program.outcome answer = .returned value) (continue_ : α → Prog I ρ β) :
    (program >>= continue_).trace answer =
      program.trace answer ++ (continue_ value).trace answer := by
  induction program with
  | ret result =>
      cases returns
      rfl
  | stop reason => simp at returns
  | call request next inductionHypothesis =>
      exact congrArg (request :: ·) (inductionHypothesis _ returns)

theorem trace_bind_stopped {program : Prog I ρ α} {reason : ρ}
    (stops : program.outcome answer = .stopped reason) (continue_ : α → Prog I ρ β) :
    (program >>= continue_).trace answer = program.trace answer := by
  induction program with
  | ret result => simp at stops
  | stop actual => rfl
  | call request next inductionHypothesis =>
      exact congrArg (request :: ·) (inductionHypothesis _ stops)

theorem outcome_bind_eq_returned {program : Prog I ρ α} {continue_ : α → Prog I ρ β} {result : β}
    (returns : (program >>= continue_).outcome answer = .returned result) :
    ∃ value, program.outcome answer = .returned value ∧
      (continue_ value).outcome answer = .returned result := by
  rcases ended : program.outcome answer with value | reason
  · exact ⟨value, rfl, by rwa [outcome_bind_returned answer ended] at returns⟩
  · rw [outcome_bind_stopped answer ended] at returns
    cases returns

theorem mem_trace_bind {program : Prog I ρ α} {continue_ : α → Prog I ρ β} {request : I.Call}
    (member : request ∈ (program >>= continue_).trace answer) :
    request ∈ program.trace answer ∨
      ∃ value, program.outcome answer = .returned value ∧
        request ∈ (continue_ value).trace answer := by
  rcases ended : program.outcome answer with value | reason
  · rw [trace_bind_returned answer ended, List.mem_append] at member
    exact member.imp_right fun later => ⟨value, rfl, later⟩
  · rw [trace_bind_stopped answer ended] at member
    exact Or.inl member

theorem mem_trace_bind_left {program : Prog I ρ α} {continue_ : α → Prog I ρ β}
    {request : I.Call} (member : request ∈ program.trace answer) :
    request ∈ (program >>= continue_).trace answer := by
  rcases ended : program.outcome answer with value | reason
  · rw [trace_bind_returned answer ended, List.mem_append]
    exact Or.inl member
  · rwa [trace_bind_stopped answer ended]

theorem mem_trace_bind_returned {program : Prog I ρ α} {value : α}
    (returns : program.outcome answer = .returned value) {continue_ : α → Prog I ρ β}
    {request : I.Call} (member : request ∈ (continue_ value).trace answer) :
    request ∈ (program >>= continue_).trace answer := by
  rw [trace_bind_returned answer returns, List.mem_append]
  exact Or.inr member

/-! ## Properties of one run -/

/-- In the run answered by `answer`, every call made is allowed and a returned
value satisfies `post`. -/
def Satisfies (allowed : I.Call → Prop) (post : α → Prop) (program : Prog I ρ α) : Prop :=
  (∀ request ∈ program.trace answer, allowed request) ∧
    ∀ value, program.outcome answer = .returned value → post value

variable {answer} {allowed : I.Call → Prop} {post : α → Prop}

theorem satisfies_ret {value : α} (holds : post value) :
    (ret value : Prog I ρ α).Satisfies answer allowed post := by
  refine ⟨by simp, ?_⟩
  intro result returns
  cases returns
  exact holds

theorem satisfies_stop (reason : ρ) :
    (stop reason : Prog I ρ α).Satisfies answer allowed post := by
  refine ⟨by simp, ?_⟩
  intro result returns
  cases returns

theorem satisfies_call {request : I.Call} {next : I.Answer request → Prog I ρ α}
    (isAllowed : allowed request)
    (continued : (next (answer request)).Satisfies answer allowed post) :
    (call request next).Satisfies answer allowed post := by
  refine ⟨?_, continued.2⟩
  intro other member
  rw [trace_call] at member
  cases List.mem_cons.mp member with
  | inl here => exact here ▸ isAllowed
  | inr later => exact continued.1 other later

theorem satisfies_trivial (program : Prog I ρ α) :
    program.Satisfies answer (fun _ => True) fun _ => True :=
  ⟨fun _ _ => trivial, fun _ _ => trivial⟩

/-- The rest of the program may rely on what the first part returned. -/
theorem Satisfies.bind {middle : β → Prop} {program : Prog I ρ β} {continue_ : β → Prog I ρ α}
    (first : program.Satisfies answer allowed middle)
    (continued : ∀ value, program.outcome answer = .returned value → middle value →
      (continue_ value).Satisfies answer allowed post) :
    (program >>= continue_).Satisfies answer allowed post := by
  refine ⟨?_, ?_⟩
  · intro request member
    cases mem_trace_bind answer member with
    | inl early => exact first.1 request early
    | inr late =>
        obtain ⟨value, returns, later⟩ := late
        exact (continued value returns (first.2 value returns)).1 request later
  · intro result returns
    obtain ⟨value, returned, rest⟩ := outcome_bind_eq_returned answer returns
    exact (continued value returned (first.2 value returned)).2 result rest

theorem Satisfies.weaken {wider : I.Call → Prop} {weaker : α → Prop} {program : Prog I ρ α}
    (holds : program.Satisfies answer allowed post) (calls : ∀ request, allowed request → wider request)
    (values : ∀ value, post value → weaker value) :
    program.Satisfies answer wider weaker :=
  ⟨fun request member => calls request (holds.1 request member),
    fun value returns => values value (holds.2 value returns)⟩

/-! ## How a run ends -/

variable (answer) in
/-- A returned value satisfies `post` and the reason of a stop `reasons`. -/
def Ends (post : α → Prop) (reasons : ρ → Prop) (program : Prog I ρ α) : Prop :=
  (∀ value, program.outcome answer = .returned value → post value) ∧
    ∀ reason, program.outcome answer = .stopped reason → reasons reason

variable {reasons : ρ → Prop}

theorem ends_ret {value : α} (holds : post value) :
    (ret value : Prog I ρ α).Ends answer post reasons := by
  refine ⟨?_, nofun⟩
  intro result returns
  cases returns
  exact holds

theorem ends_stop {reason : ρ} (holds : reasons reason) :
    (stop reason : Prog I ρ α).Ends answer post reasons := by
  refine ⟨nofun, ?_⟩
  intro actual stops
  cases stops
  exact holds

theorem ends_call {request : I.Call} {next : I.Answer request → Prog I ρ α}
    (continued : (next (answer request)).Ends answer post reasons) :
    (call request next).Ends answer post reasons := continued

theorem Ends.bind {middle : β → Prop} {program : Prog I ρ β} {continue_ : β → Prog I ρ α}
    (first : program.Ends answer middle reasons)
    (continued : ∀ value, middle value → (continue_ value).Ends answer post reasons) :
    (program >>= continue_).Ends answer post reasons := by
  rcases ended : program.outcome answer with value | reason
  · have rest := continued value (first.1 value ended)
    rwa [Ends, outcome_bind_returned answer ended]
  · rw [Ends, outcome_bind_stopped answer ended]
    refine ⟨nofun, ?_⟩
    rintro _ ⟨⟩
    exact first.2 reason ended

/-! ## What a run costs -/

variable (answer) in
/-- The sum of what the calls of the run weigh. -/
def cost (weight : I.Call → Int) (program : Prog I ρ α) : Int :=
  ((program.trace answer).map weight).sum

variable (answer) in
theorem cost_bind_returned {weight : I.Call → Int} {program : Prog I ρ α} {value : α}
    (returns : program.outcome answer = .returned value) (continue_ : α → Prog I ρ β) :
    (program >>= continue_).cost answer weight =
      program.cost answer weight + (continue_ value).cost answer weight := by
  rw [cost, trace_bind_returned answer returns, List.map_append, List.sum_append]
  rfl

variable (answer) in
/-- A returned value and the cost of the run satisfy `spent`. -/
def Costs (weight : I.Call → Int) (spent : α → Int → Prop) (program : Prog I ρ α) : Prop :=
  ∀ value, program.outcome answer = .returned value → spent value (program.cost answer weight)

variable {weight : I.Call → Int} {spent : α → Int → Prop}

theorem costs_ret {value : α} (holds : spent value 0) :
    (ret value : Prog I ρ α).Costs answer weight spent := by
  intro result returns
  cases returns
  exact holds

theorem costs_stop (reason : ρ) : (stop reason : Prog I ρ α).Costs answer weight spent := by
  intro result returns
  cases returns

theorem costs_call {request : I.Call} {next : I.Answer request → Prog I ρ α}
    (continued : (next (answer request)).Costs answer weight
      fun value later => spent value (weight request + later)) :
    (call request next).Costs answer weight spent := by
  intro value returns
  have later := continued value returns
  rwa [cost, trace_call, List.map_cons, List.sum_cons]

theorem Costs.bind {first : β → Int → Prop} {program : Prog I ρ β} {continue_ : β → Prog I ρ α}
    (costs : program.Costs answer weight first)
    (continued : ∀ value early, first value early →
      (continue_ value).Costs answer weight fun result later => spent result (early + later)) :
    (program >>= continue_).Costs answer weight spent := by
  intro result returns
  obtain ⟨value, returned, rest⟩ := outcome_bind_eq_returned answer returns
  rw [cost_bind_returned answer returned]
  exact continued value _ (costs value returned) result rest

theorem Costs.weaken {weaker : α → Int → Prop} {program : Prog I ρ α}
    (costs : program.Costs answer weight spent)
    (values : ∀ value cost, spent value cost → weaker value cost) :
    program.Costs answer weight weaker :=
  fun value returns => values value _ (costs value returns)

theorem Costs.and_satisfies {program : Prog I ρ α} (costs : program.Costs answer weight spent)
    (satisfied : program.Satisfies answer allowed post) :
    program.Costs answer weight fun value cost => spent value cost ∧ post value :=
  fun value returns => ⟨costs value returns, satisfied.2 value returns⟩

end Runs

/-! ## Properties of every path -/

/-- Only allowed calls are made, whatever the answers are. -/
def Only (allowed : I.Call → Prop) : Prog I ρ α → Prop
  | ret _ => True
  | stop _ => True
  | call request next => allowed request ∧ ∀ answer, (next answer).Only allowed

/-- With admissible answers only allowed calls are made and the program does
not return. -/
def NeverReturns (admissible : (request : I.Call) → I.Answer request → Prop)
    (allowed : I.Call → Prop) : Prog I ρ α → Prop
  | ret _ => False
  | stop _ => True
  | call request next => allowed request ∧
      ∀ answer, admissible request answer → (next answer).NeverReturns admissible allowed

section Paths

variable {allowed : I.Call → Prop} {admissible : (request : I.Call) → I.Answer request → Prop}

theorem Only.mono {wider : I.Call → Prop} {program : Prog I ρ α} (only : program.Only allowed)
    (calls : ∀ request, allowed request → wider request) : program.Only wider := by
  induction program with
  | ret value => trivial
  | stop reason => trivial
  | call request next inductionHypothesis =>
      exact ⟨calls request only.1, fun answer => inductionHypothesis answer (only.2 answer)⟩

theorem Only.bind {program : Prog I ρ α} {continue_ : α → Prog I ρ β}
    (only : program.Only allowed) (continued : ∀ value, (continue_ value).Only allowed) :
    (program >>= continue_).Only allowed := by
  induction program with
  | ret value => exact continued value
  | stop reason => trivial
  | call request next inductionHypothesis =>
      exact ⟨only.1, fun answer => inductionHypothesis answer (only.2 answer)⟩

/-- What would follow is never reached. -/
theorem NeverReturns.bind {program : Prog I ρ α}
    (ends : program.NeverReturns admissible allowed) (continue_ : α → Prog I ρ β) :
    (program >>= continue_).NeverReturns admissible allowed := by
  induction program with
  | ret value => exact ends.elim
  | stop reason => trivial
  | call request next inductionHypothesis =>
      exact ⟨ends.1, fun answer isAdmissible => inductionHypothesis answer (ends.2 answer isAdmissible)⟩

end Paths

/-! ## Bounds on the number of calls -/

/-- On no path are more than `bound` of the counted calls made. -/
def AtMost (counted : I.Call → Bool) : Prog I ρ α → Nat → Prop
  | ret _, _ => True
  | stop _, _ => True
  | call request next, bound =>
      if counted request then ∃ rest, bound = rest + 1 ∧ ∀ answer, (next answer).AtMost counted rest
      else ∀ answer, (next answer).AtMost counted bound

section Bounds

variable {counted : I.Call → Bool}

theorem atMost_call_other {request : I.Call} {next : I.Answer request → Prog I ρ α} {bound : Nat}
    (other : counted request = false) :
    (call request next).AtMost counted bound ↔ ∀ answer, (next answer).AtMost counted bound := by
  simp [AtMost, other]

theorem atMost_call_counted {request : I.Call} {next : I.Answer request → Prog I ρ α}
    {bound : Nat} (isCounted : counted request = true) :
    (call request next).AtMost counted bound ↔
      ∃ rest, bound = rest + 1 ∧ ∀ answer, (next answer).AtMost counted rest := by
  simp [AtMost, isCounted]

theorem Only.atMost {allowed : I.Call → Prop} {program : Prog I ρ α}
    (only : program.Only allowed) (uncounted : ∀ request, allowed request → counted request = false)
    (bound : Nat) : program.AtMost counted bound := by
  induction program with
  | ret value => trivial
  | stop reason => trivial
  | call request next inductionHypothesis =>
      rw [atMost_call_other (uncounted request only.1)]
      exact fun answer => inductionHypothesis answer (only.2 answer)

theorem AtMost.mono {program : Prog I ρ α} {small large : Nat}
    (bounded : program.AtMost counted small) (le : small ≤ large) :
    program.AtMost counted large := by
  induction program generalizing small large with
  | ret value => trivial
  | stop reason => trivial
  | call request next inductionHypothesis =>
      rcases isCounted : counted request with _ | _
      · rw [atMost_call_other isCounted] at bounded ⊢
        exact fun answer => inductionHypothesis answer (bounded answer) le
      · rw [atMost_call_counted isCounted] at bounded ⊢
        obtain ⟨rest, rfl, later⟩ := bounded
        exact ⟨large - 1, by omega, fun answer => inductionHypothesis answer (later answer) (by omega)⟩

theorem AtMost.bind {program : Prog I ρ α} {continue_ : α → Prog I ρ β} {first second : Nat}
    (bounded : program.AtMost counted first)
    (continued : ∀ value, (continue_ value).AtMost counted second) :
    (program >>= continue_).AtMost counted (first + second) := by
  induction program generalizing first with
  | ret value => exact (continued value).mono (by omega)
  | stop reason => trivial
  | call request next inductionHypothesis =>
      rw [call_bind]
      rcases isCounted : counted request with _ | _
      · rw [atMost_call_other isCounted] at bounded ⊢
        exact fun answer => inductionHypothesis answer (bounded answer)
      · rw [atMost_call_counted isCounted] at bounded ⊢
        obtain ⟨rest, rfl, later⟩ := bounded
        exact ⟨rest + second, by omega, fun answer => inductionHypothesis answer (later answer)⟩

theorem AtMost.zero_bind {program : Prog I ρ α} {continue_ : α → Prog I ρ β} {bound : Nat}
    (bounded : program.AtMost counted 0)
    (continued : ∀ value, (continue_ value).AtMost counted bound) :
    (program >>= continue_).AtMost counted bound := by
  have both := bounded.bind continued
  rwa [Nat.zero_add] at both

theorem AtMost.bind_zero {program : Prog I ρ α} {continue_ : α → Prog I ρ β} {bound : Nat}
    (bounded : program.AtMost counted bound)
    (continued : ∀ value, (continue_ value).AtMost counted 0) :
    (program >>= continue_).AtMost counted bound :=
  bounded.bind continued

end Bounds

end Prog

end Program
