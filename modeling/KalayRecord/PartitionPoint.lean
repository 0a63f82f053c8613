namespace KalayRecord

def bisect (p : Nat → Bool) (lo hi : Nat) : Nat :=
  if lo < hi then
    let mid := lo + (hi - lo) / 2
    if p mid then bisect p (mid + 1) hi else bisect p lo mid
  else lo
termination_by hi - lo

/-- The number of leading elements that satisfy `p`, when no later one does. On other arrays this is
what the bisection comes to: the library search that it stands for gives no result to rely on there,
only a place of the array or its end. -/
def partitionPoint {α : Type} (p : α → Bool) (xs : Array α) : Nat :=
  bisect (fun i => xs[i]?.any p) 0 xs.size

end KalayRecord
