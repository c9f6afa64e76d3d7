/-! Line ends. Text that comes from outside may end its lines in three ways; inside there is one. -/
namespace AccessibleMarkup.Text

/-- `unifyLineEnds` behind the part already done, which stands in reverse. -/
def unifyLineEndsOnto (done : List Char) : List Char → List Char
  | [] => done.reverse
  | '\r' :: '\n' :: rest => unifyLineEndsOnto ('\n' :: done) rest
  | '\r' :: rest => unifyLineEndsOnto ('\n' :: done) rest
  | c :: rest => unifyLineEndsOnto (c :: done) rest

/-- Every line end, be it a carriage return, a line feed or both in this order, as one line
feed. -/
def unifyLineEnds (text : List Char) : List Char :=
  unifyLineEndsOnto [] text

/-- Text without carriage returns stays as it is. -/
theorem unifyLineEnds_of_not_mem {text : List Char} (hReturn : '\r' ∉ text) :
    unifyLineEnds text = text := by
  have hOnto : ∀ done : List Char, unifyLineEndsOnto done text = done.reverse ++ text := by
    induction text with
    | nil => simp [unifyLineEndsOnto]
    | cons c rest ih =>
        intro done
        have hFirst : c ≠ '\r' := fun hEq => hReturn (by simp [hEq])
        have hRest : '\r' ∉ rest := fun hMem => hReturn (by simp [hMem])
        rw [unifyLineEndsOnto.eq_4 _ _ _ (fun _ hEq => absurd hEq hFirst) hFirst, ih hRest]
        simp
  simpa [unifyLineEnds] using hOnto []

end AccessibleMarkup.Text
