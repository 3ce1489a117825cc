import StaticImage.Proofs.Image.Respelling
import Mathlib.Data.List.DropRight

namespace StaticImage

structure Buffer where
  passed : List UInt8
  held : List UInt8

namespace Buffer

def empty : Buffer :=
  ⟨[], []⟩

def written (b : Buffer) : List UInt8 :=
  b.passed ++ b.held

def flush (b : Buffer) : Buffer :=
  ⟨b.written, []⟩

/-- Holds bytes back while there is room; what takes up all of the room is passed on as it is. -/
def put (b : Buffer) (size : Nat) (bytes : List UInt8) : Buffer :=
  let b := if size < b.held.length + bytes.length then b.flush else b
  if size ≤ bytes.length then ⟨b.passed ++ bytes, b.held⟩ else ⟨b.passed, b.held ++ bytes⟩

def newline : UInt8 := 10

def putLines (b : Buffer) (size : Nat) (bytes : List UInt8) : Buffer :=
  let lines := bytes.rdropWhile (· ≠ newline)
  let rest := bytes.rtakeWhile (· ≠ newline)
  if lines = [] then
    (if b.held.getLast? = some newline then b.flush else b).put size bytes
  else if b.held = [] then put ⟨b.passed ++ lines, []⟩ size rest
  else (b.put size lines).flush.put size rest

variable (b : Buffer) (size : Nat) (bytes : List UInt8)

@[simp]
theorem written_flush : b.flush.written = b.written := by
  simp [flush, written]

@[simp]
theorem written_put : (b.put size bytes).written = b.written ++ bytes := by
  by_cases full : size < b.held.length + bytes.length
  · by_cases whole : size ≤ bytes.length
    · simp [put, full, whole, flush, written]
    · simp [put, full, whole, flush, written]
  · by_cases whole : size ≤ bytes.length
    · -- Nothing is held back where the bytes take up all of the room and there still is some.
      have nothing : b.held = [] := by
        rw [← List.length_eq_zero_iff]
        omega
      rw [put, if_neg full, if_pos whole, written, written, nothing]
      simp
    · simp [put, full, whole, written]

@[simp]
theorem written_putLines : (b.putLines size bytes).written = b.written ++ bytes := by
  have whole := List.rdropWhile_append_rtakeWhile (p := (· ≠ newline)) (l := bytes)
  rw [putLines]
  split
  · rw [written_put]
    split
    · rw [written_flush]
    · rfl
  · split
    · rename_i nothing
      rw [written_put, written, written, nothing, List.append_nil, List.append_nil,
        List.append_assoc, whole]
    · rw [written_put, written_flush, written_put, List.append_assoc, whole]

end Buffer

/-- Whether a writer waits until its room is full, or only until a line ends. -/
inductive Buffering where
  | blocks (size : Nat)
  | lines (size : Nat)

namespace Buffering

variable (k : Buffering)

def put (b : Buffer) (bytes : List UInt8) : Buffer :=
  match k with
  | blocks size => b.put size bytes
  | lines size => b.putLines size bytes

def output (writes : List (List UInt8)) : List UInt8 :=
  (writes.foldl k.put .empty).flush.passed

theorem written_put (b : Buffer) (bytes : List UInt8) :
    (k.put b bytes).written = b.written ++ bytes := by
  cases k with
  | blocks size => exact b.written_put size bytes
  | lines size => exact b.written_putLines size bytes

theorem written_foldl (writes : List (List UInt8)) (b : Buffer) :
    (writes.foldl k.put b).written = b.written ++ writes.flatten := by
  induction writes generalizing b with
  | nil => rw [List.foldl_nil, List.flatten_nil, List.append_nil]
  | cons bytes writes ih =>
      calc ((bytes :: writes).foldl k.put b).written
          = (k.put b bytes).written ++ writes.flatten := ih (k.put b bytes)
        _ = b.written ++ bytes ++ writes.flatten := by rw [written_put]
        _ = b.written ++ (bytes :: writes).flatten := by
          rw [List.append_assoc, List.flatten_cons]

theorem output_eq_flatten (writes : List (List UInt8)) : k.output writes = writes.flatten :=
  k.written_foldl writes .empty

end Buffering

def Heap.writes (h : Heap) (root : Value) (options : DumpOptions) : List (List UInt8) :=
  ((h.rootPlan root options.context).taken options.weak none).map fun step =>
    (String.ofList (step.spelling options.weak)).toUTF8.data.toList

theorem Trace.flatten_writes (weak : Bool) (trace : Trace) :
    (trace.map fun step => (String.ofList (step.spelling weak)).toUTF8.data.toList).flatten =
      (String.ofList (trace.spelling weak)).toUTF8.data.toList := by
  induction trace with
  | nil => rfl
  | cons step rest ih =>
      rw [List.map_cons, List.flatten_cons, ih, spelling_cons, String.ofList_append]
      simp

/-- However a writer holds bytes back, it passes on what the dump writes. -/
theorem Heap.output_writes (h : Heap) (root : Value) (options : DumpOptions) (k : Buffering) :
    k.output (h.writes root options) = (h.dump root options none).1.bytes := by
  let plan := h.rootPlan root options.context
  calc k.output (h.writes root options)
      = (h.writes root options).flatten := k.output_eq_flatten _
    _ = (String.ofList ((plan.taken options.weak none).spelling options.weak)).toUTF8.data.toList :=
      Trace.flatten_writes options.weak _
    _ = (h.dump root options none).1.bytes := (plan.bytes_unbounded options.weak).symm

end StaticImage
