import AccessibleMarkup.Failure

/-!
Work that keeps a log. The lines stay when the work fails, up to the point where it does. The
outcome does not hang on the log.
-/
namespace AccessibleMarkup

/-- The lines that some work logged, and its outcome. -/
structure Logged (α : Type) where
  lines : List String
  outcome : Except Failure α

namespace Logged

def ofOutcome (outcome : Except Failure α) : Logged α := ⟨[], outcome⟩

def line (text : String) : Logged Unit := ⟨[text], .ok ()⟩

/-- Work that goes on with the value of other work. -/
def andThen (work : Logged α) (next : α → Logged β) : Logged β :=
  match work.outcome with
  | .error failure => ⟨work.lines, .error failure⟩
  | .ok value =>
    let later := next value
    ⟨work.lines ++ later.lines, later.outcome⟩

instance : Monad Logged where
  pure value := ⟨[], .ok value⟩
  bind := andThen

@[simp] theorem outcome_pure (value : α) : (pure value : Logged α).outcome = .ok value := rfl

@[simp] theorem outcome_ofOutcome (outcome : Except Failure α) :
    (ofOutcome outcome).outcome = outcome := rfl

@[simp] theorem outcome_line (text : String) : (line text).outcome = .ok () := rfl

/-- What was logged does not matter to the outcome. -/
@[simp] theorem outcome_bind (work : Logged α) (next : α → Logged β) :
    (work >>= next).outcome = work.outcome >>= fun value => (next value).outcome := by
  change (andThen work next).outcome = _
  unfold andThen
  cases work.outcome <;> rfl

end Logged

end AccessibleMarkup
