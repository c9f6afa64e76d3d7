/-! The ARIA attributes that are recognised, and the values they may have. -/
namespace AccessibleMarkup.Aria

def knownNames : List String :=
  ["aria-label", "aria-labelledby", "aria-describedby", "aria-hidden", "aria-expanded",
    "aria-haspopup", "aria-controls", "aria-pressed", "aria-checked", "aria-current",
    "aria-disabled", "aria-dropeffect", "aria-grabbed", "aria-invalid", "aria-live", "aria-owns",
    "aria-relevant", "aria-required", "aria-role", "aria-selected", "aria-valuemax",
    "aria-valuemin", "aria-valuenow", "aria-valuetext"]

def booleanNames : List String :=
  ["aria-hidden", "aria-expanded", "aria-pressed", "aria-invalid"]

/-- A recognised attribute with a value it may have: true or false for those that are either, any
text but the empty one for the others. An attribute without a value has none of these. -/
def isValid (name : String) (value : Option String) : Bool :=
  knownNames.contains name &&
    if booleanNames.contains name then value = some "true" || value = some "false"
    else value.isSome && value != some ""

/-- The name of an ARIA attribute, recognised or not. -/
def isAriaName (name : String) : Bool :=
  "aria-".toList.isPrefixOf name.toList

end AccessibleMarkup.Aria
