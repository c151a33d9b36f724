import PageAssembly.Text.Blank

/-!
# Texts in chunks

## Main definitions

* `Text.chunksOf` — a text cut into chunks of a given length
* `Text.chunks` — the chunks that reading with a given request size delivers

## Main statements

* `Text.flatten_chunksOf` — the chunks spell the text
-/

namespace PageAssembly.Text

/-- The work behind `chunksOf`; `done` is in reverse. -/
def chunksFrom (size : Nat) (done : List Text) (s : Text) : List Text :=
  if s.isEmpty || size == 0 then done.reverse
  else chunksFrom size (s.take size :: done) (s.drop size)
termination_by s.length
decreasing_by
  rename_i h
  have hs : s ≠ [] := by rintro rfl; simp at h
  have hz : size ≠ 0 := by rintro rfl; simp at h
  have := List.length_pos_iff.2 hs
  simp only [List.length_drop]
  omega

/-- The text in chunks of the given length, the last one shorter if need be.  A length of zero
gives no chunk. -/
def chunksOf (size : Nat) (s : Text) : List Text := chunksFrom size [] s

theorem flatten_chunksFrom {size : Nat} (h : size ≠ 0) (done : List Text) (s : Text) :
    (chunksFrom size done s).flatten = done.reverse.flatten ++ s := by
  fun_induction chunksFrom size done s with
  | case1 done s hs =>
    have : s = [] := by simpa [h] using hs
    simp [this]
  | case2 done s hs ih => simp [ih, List.take_append_drop]

theorem flatten_chunksOf {size : Nat} (h : size ≠ 0) (s : Text) :
    (chunksOf size s).flatten = s := by
  simpa [chunksOf] using flatten_chunksFrom h [] s

/-- The chunks that reading delivers when `size` characters are asked for at a time.  A negative
size asks for everything. -/
def chunks (size : Int) (s : Text) : List Text :=
  if size < 0 then (if s.isEmpty then [] else [s]) else chunksOf size.toNat s

/-- The number of characters that files are read by. -/
def chunkSize : Nat := 65536

end PageAssembly.Text
