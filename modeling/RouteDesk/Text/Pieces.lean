/-! Cutting a list at every occurrence of a mark. -/

namespace RouteDesk.Text

/-- The pieces of a list between marks: the first one, and the ones after it. -/
def pieces {α : Type} [DecidableEq α] (mark : α) : List α → List α × List (List α)
  | [] => ([], [])
  | item :: rest =>
    let (first, later) := pieces mark rest
    if item = mark then ([], first :: later) else (item :: first, later)

/-- A list without marks is a single piece. -/
theorem pieces_of_not_mem {α : Type} [DecidableEq α] {mark : α} {items : List α}
    (absent : mark ∉ items)
    : pieces mark items = (items, []) := by
  induction items with
  | nil => rfl
  | cons item rest ih =>
      simp only [List.mem_cons, not_or] at absent
      simp only [pieces, ih absent.2, if_neg (Ne.symm absent.1)]

end RouteDesk.Text
