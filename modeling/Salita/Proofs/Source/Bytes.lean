import Salita.Source.Bytes

namespace Salita.Text

theorem foldl_utf8Size (text : List Char) (n : Nat) :
    text.foldl (fun n c => n + c.utf8Size) n = n + byteCount text := by
  unfold byteCount
  induction text generalizing n with
  | nil => rfl
  | cons c text ih =>
      rw [List.foldl_cons, List.foldl_cons, ih, ih (0 + c.utf8Size)]
      omega

@[simp] theorem byteCount_nil : byteCount [] = 0 := rfl

@[simp] theorem byteCount_cons (c : Char) (text : List Char) :
    byteCount (c :: text) = c.utf8Size + byteCount text := by
  rw [byteCount, List.foldl_cons, foldl_utf8Size, Nat.zero_add]

@[simp] theorem byteCount_append (before text : List Char) :
    byteCount (before ++ text) = byteCount before + byteCount text := by
  induction before with
  | nil => simp
  | cons c before ih =>
      rw [List.cons_append, byteCount_cons, byteCount_cons, ih]
      omega

theorem byteCount_pos {text : List Char} (nonempty : text ≠ []) : 0 < byteCount text := by
  cases text with
  | nil => exact absurd rfl nonempty
  | cons c text =>
      have := c.utf8Size_pos
      rw [byteCount_cons]
      omega

theorem length_le_byteCount (text : List Char) : text.length ≤ byteCount text := by
  induction text with
  | nil => exact Nat.le_refl 0
  | cons c text ih =>
      have := c.utf8Size_pos
      rw [List.length_cons, byteCount_cons]
      omega

theorem dropBytes?_cons (c : Char) (n : Nat) (text : List Char) :
    dropBytes? (c.utf8Size + n) (c :: text) = dropBytes? n text := by
  obtain ⟨m, size⟩ := Nat.exists_eq_succ_of_ne_zero (Nat.ne_of_gt c.utf8Size_pos)
  have left : m + n + 1 - c.utf8Size = n := by omega
  rw [size, Nat.succ_add, dropBytes?, if_pos (by omega), left]

theorem takeBytes?_cons (c : Char) (n : Nat) (text : List Char) :
    takeBytes? (c.utf8Size + n) (c :: text) = (takeBytes? n text).map (c :: ·) := by
  obtain ⟨m, size⟩ := Nat.exists_eq_succ_of_ne_zero (Nat.ne_of_gt c.utf8Size_pos)
  have left : m + n + 1 - c.utf8Size = n := by omega
  rw [size, Nat.succ_add, takeBytes?, if_pos (by omega), left]

theorem dropBytes?_suffix {n : Nat} {text rest : List Char}
    (found : dropBytes? n text = some rest) : rest <:+ text := by
  fun_induction dropBytes? n text with
  | case1 text =>
      cases found
      exact List.suffix_refl _
  | case2 => cases found
  | case3 n c text _ ih => exact (ih found).trans (List.suffix_cons c text)
  | case4 => cases found

theorem dropBytes?_append (before after : List Char) :
    dropBytes? (byteCount before) (before ++ after) = some after := by
  induction before with
  | nil => rw [byteCount_nil, List.nil_append, dropBytes?]
  | cons c before ih => rw [byteCount_cons, List.cons_append, dropBytes?_cons, ih]

theorem takeBytes?_append (before after : List Char) :
    takeBytes? (byteCount before) (before ++ after) = some before := by
  induction before with
  | nil => rw [byteCount_nil, List.nil_append, takeBytes?]
  | cons c before ih =>
      rw [byteCount_cons, List.cons_append, takeBytes?_cons, ih, Option.map_some]

theorem slice?_append (before piece after : List Char) :
    slice? (before ++ (piece ++ after)) (byteCount before) (byteCount before + byteCount piece) =
      some piece := by
  rw [slice?, if_pos (Nat.le_add_right _ _), dropBytes?_append, Option.bind_some,
    Nat.add_sub_cancel_left, takeBytes?_append]

def utf8 (text : List Char) : List UInt8 := text.flatMap String.utf8EncodeChar

def newlineByte : UInt8 := 10

@[simp] theorem utf8_cons (c : Char) (text : List Char) :
    utf8 (c :: text) = String.utf8EncodeChar c ++ utf8 text := List.flatMap_cons

@[simp] theorem utf8_append (before text : List Char) :
    utf8 (before ++ text) = utf8 before ++ utf8 text := List.flatMap_append

@[simp] theorem length_utf8 (text : List Char) : (utf8 text).length = byteCount text := by
  induction text with
  | nil => rfl
  | cons c text ih =>
      rw [utf8_cons, List.length_append, String.length_utf8EncodeChar, ih, byteCount_cons]

theorem take_utf8 (before after : List Char) :
    (utf8 (before ++ after)).take (byteCount before) = utf8 before := by
  rw [utf8_append, ← length_utf8, List.take_left]

theorem utf8EncodeChar_newline : String.utf8EncodeChar '\n' = [newlineByte] := by decide

theorem toNat_of_mem_utf8EncodeChar {c : Char} {byte : UInt8}
    (member : byte ∈ String.utf8EncodeChar c) : byte.toNat = c.toNat ∨ 128 ≤ byte.toNat := by
  unfold String.utf8EncodeChar at member
  simp only at member
  split at member
  case isTrue one =>
    left
    rw [List.mem_singleton.1 member, UInt8.toNat_ofNat']
    exact Nat.mod_eq_of_lt (by omega)
  case isFalse =>
    right
    split at member
    · simp only [List.mem_cons, List.not_mem_nil, or_false] at member
      rcases member with rfl | rfl <;> rw [UInt8.toNat_ofNat'] <;> omega
    · split at member
      · simp only [List.mem_cons, List.not_mem_nil, or_false] at member
        rcases member with rfl | rfl | rfl <;> rw [UInt8.toNat_ofNat'] <;> omega
      · simp only [List.mem_cons, List.not_mem_nil, or_false] at member
        rcases member with rfl | rfl | rfl | rfl <;> rw [UInt8.toNat_ofNat'] <;> omega

theorem newlineByte_notMem_utf8EncodeChar {c : Char} (other : c ≠ '\n') :
    newlineByte ∉ String.utf8EncodeChar c := by
  intro member
  rcases toNat_of_mem_utf8EncodeChar member with same | beyond
  · exact other (Char.toNat_inj.1 same.symm)
  · exact absurd beyond (by decide)

theorem count_utf8 (text : List Char) : (utf8 text).count newlineByte = text.count '\n' := by
  induction text with
  | nil => rfl
  | cons c text ih =>
      rw [utf8_cons, List.count_append, ih, List.count_cons]
      by_cases newline : c = '\n'
      · rw [newline, utf8EncodeChar_newline]
        simp [Nat.add_comm]
      · have free := List.count_eq_zero.2 (newlineByte_notMem_utf8EncodeChar newline)
        simp [newline, free]

end Salita.Text
