import AccessibleMarkup.Failure

/-!
What can be configured. Settings are what a caller gives and may be unusable; a configuration is
settings that were checked.
-/
namespace AccessibleMarkup

/-- The greatest size of a text, in bytes of UTF-8. -/
def maxSize : Nat := 1000000

/-- A conformance level, or what stands in its place. -/
inductive LevelSetting where
  | known (level : Level)
  | foreign (given : Json.Value)

structure Settings where
  level : LevelSetting := .known .aa
  /-- The largest step by which a heading may rise above the one before. -/
  maxHeadingJump : Int := 1
  labelButtons : Bool := true
  labelNavigation : Bool := true
  labelForms : Bool := true
  labelInputs : Bool := true

structure Config where
  level : Level
  maxHeadingJump : Int
  labelButtons : Bool
  labelNavigation : Bool
  labelForms : Bool
  labelInputs : Bool
  jump_pos : 1 ≤ maxHeadingJump

/-- The configuration that the settings describe. The level is checked before the headings. -/
def Settings.check (settings : Settings) : Except Failure Config :=
  match settings.level with
  | .foreign given => .error (.configuration (.level given))
  | .known level =>
    if hJump : 1 ≤ settings.maxHeadingJump then
      .ok
        { level := level
          maxHeadingJump := settings.maxHeadingJump
          labelButtons := settings.labelButtons
          labelNavigation := settings.labelNavigation
          labelForms := settings.labelForms
          labelInputs := settings.labelInputs
          jump_pos := hJump }
    else .error (.configuration (.headingJump settings.maxHeadingJump))

def Config.standard : Config :=
  { level := .aa
    maxHeadingJump := 1
    labelButtons := true
    labelNavigation := true
    labelForms := true
    labelInputs := true
    jump_pos := by decide }

/-- Settings that a caller leaves as they are can be used. -/
theorem Settings.check_default : Settings.check {} = .ok Config.standard := rfl

end AccessibleMarkup
