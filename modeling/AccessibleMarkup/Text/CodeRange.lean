/-! Sets of code points: those that are written as ranges, and ASCII, which is small enough to be gone
through. -/
namespace AccessibleMarkup.Text

def inRanges (ranges : List (Nat × Nat)) (code : Nat) : Bool :=
  ranges.any fun range => range.1 ≤ code && code ≤ range.2

/-- What holds of every code point in ASCII holds of every character of ASCII. The code points can
be gone through one by one. -/
theorem forall_ascii {p : Char → Prop} (hAll : ∀ code < 0x80, p (Char.ofNat code)) {c : Char}
    (hC : c.toNat < 0x80) : p c := by
  have hHere := hAll c.toNat hC
  rwa [Char.ofNat_toNat] at hHere

end AccessibleMarkup.Text
