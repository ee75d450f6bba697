import Mathlib.Data.List.Basic
import Mathlib.Data.List.Range

namespace Wddlib

/-- The characters of a C string, without its terminating zero. -/
def text (s : String) : List UInt8 := s.toList.map fun c => UInt8.ofNat c.toNat

/-- Bytes stored one after the other from an offset of a buffer on. -/
structure Store where
  offset : Nat
  bytes : List UInt8

/-- The memory from a buffer on after a store. -/
def Store.apply (mem : Nat → UInt8) (st : Store) (i : Nat) : UInt8 :=
  if i < st.offset then mem i else (st.bytes[i - st.offset]?).getD (mem i)

/-- The store stays within a buffer of this size. -/
def Store.Within (size : Nat) (st : Store) : Prop := st.offset + st.bytes.length ≤ size

/-- The first `n` bytes at an address. -/
def bytesAt (mem : Nat → UInt8) (n : Nat) : List UInt8 := (List.range n).map mem

/-- The bytes that `snprintf` stores in a buffer of this size; it returns the length of all of `out`. -/
def snprintf (size : Nat) (out : List UInt8) : List UInt8 :=
  if size = 0 then [] else out.take (size - 1) ++ [0]

section

variable {mem : Nat → UInt8} {st : Store} {n : Nat}

theorem Store.apply_before {i : Nat} (hi : i < st.offset) : st.apply mem i = mem i := if_pos hi

theorem Store.apply_behind {i : Nat} (hi : st.offset + st.bytes.length ≤ i) : st.apply mem i = mem i := by
  rw [Store.apply, if_neg (by omega), List.getElem?_eq_none (by omega), Option.getD_none]

theorem Store.apply_at {i : Nat} (hi : i < st.bytes.length) : st.bytes[i]? = some (st.apply mem (st.offset + i)) := by
  rw [Store.apply, if_neg (by omega), Nat.add_sub_cancel_left, List.getElem?_eq_getElem hi, Option.getD_some]

theorem bytesAt_length (mem : Nat → UInt8) (n : Nat) : (bytesAt mem n).length = n := by
  rw [bytesAt, List.length_map, List.length_range]

theorem bytesAt_getElem? {i : Nat} (hi : i < n) : (bytesAt mem n)[i]? = some (mem i) := by
  rw [bytesAt, List.getElem?_map, List.getElem?_range hi, Option.map_some]

/-- What is read is known when its beginning and the rest of it are. -/
theorem bytesAt_append {front back : List UInt8} (hn : n = front.length + back.length)
    (hfront : ∀ i < front.length, front[i]? = some (mem i))
    (hback : ∀ i < back.length, back[i]? = some (mem (front.length + i))) : bytesAt mem n = front ++ back := by
  refine List.ext_getElem? fun i => ?_
  by_cases hi : i < n
  · rw [bytesAt_getElem? hi]
    by_cases hin : i < front.length
    · rw [List.getElem?_append_left hin, hfront i hin]
    · rw [List.getElem?_append_right (by omega), hback _ (by omega),
        show front.length + (i - front.length) = i by omega]
  · rw [List.getElem?_eq_none (by rw [bytesAt_length]; omega),
      List.getElem?_eq_none (by rw [List.length_append]; omega)]

theorem snprintf_length_le (size : Nat) (out : List UInt8) : (snprintf size out).length ≤ size := by
  unfold snprintf
  split
  · simp
  · rw [List.length_append, List.length_take, List.length_singleton]
    omega

/-- The whole output stands in a buffer that has room for it and the zero. -/
theorem snprintf_getElem? {size i : Nat} {out : List UInt8} (room : out.length < size) (hi : i < out.length) :
    (snprintf size out)[i]? = out[i]? := by
  rw [snprintf, if_neg (by omega), List.take_of_length_le (by omega), List.getElem?_append_left hi]

end

end Wddlib
