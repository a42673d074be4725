import CallTree.Text.Quoted
import Mathlib.Algebra.Group.Nat.Defs

/-!
# Codes of numbers and texts

A number is written with digits and perhaps a sign in front.  Hexadecimal digits
determine a number that fits their width, and its bytes determine a text.
-/

namespace CallTree
namespace Text

theorem isDigit_or_of_mem_repr {number : Int} {c : Char} (member : c ∈ number.repr.toList) :
    c.isDigit = true ∨ c = '-' := by
  have digits (magnitude : Nat) (inside : c ∈ magnitude.repr.toList) : c.isDigit = true := by
    rw [Nat.repr_eq_ofList_toDigits, String.toList_ofList] at inside
    exact Nat.isDigit_of_mem_toDigits (by decide) (by decide) inside
  rw [Int.repr_eq_if] at member
  split at member
  · exact .inl (digits _ member)
  · rw [String.toList_append, List.mem_append] at member
    rcases member with sign | digit
    · exact .inr (by simpa using sign)
    · exact .inl (digits _ digit)

theorem hexDigits_inj {width first second : Nat} (firstFits : first < 16 ^ width)
    (secondFits : second < 16 ^ width)
    (same : hexDigits width first = hexDigits width second) : first = second := by
  have digits : ∀ a < 16, ∀ b < 16, Nat.digitChar a = Nat.digitChar b → a = b := by decide
  induction width generalizing first second with
  | zero => omega
  | succ width ih =>
      rw [hexDigits, hexDigits] at same
      obtain ⟨front, last⟩ := List.append_inj' same rfl
      have quotients : first / 16 = second / 16 := by
        apply ih _ _ front <;> omega
      have remainders : first % 16 = second % 16 := by
        apply digits _ (Nat.mod_lt _ (by decide)) _ (Nat.mod_lt _ (by decide))
        exact List.singleton_inj.mp last
      omega

theorem toList_eq_toList_data (bytes : ByteArray) : bytes.toList = bytes.data.toList := by
  -- The loop has the bytes taken so far in reverse.
  have rest (index : Nat) (taken : List UInt8) :
      ByteArray.toList.loop bytes index taken =
        taken.reverse ++ bytes.data.toList.drop index := by
    fun_induction ByteArray.toList.loop bytes index taken with
    | case1 index taken inside ih =>
        have here : index < bytes.data.toList.length := inside
        have first : bytes.get! index = bytes.data.toList[index] :=
          getElem!_pos bytes.data index inside
        rw [ih, List.drop_eq_getElem_cons here, first, List.reverse_cons, List.append_assoc]
        rfl
    | case2 index taken outside =>
        have beyond : bytes.data.toList.length ≤ index := Nat.le_of_not_lt outside
        rw [List.drop_eq_nil_of_le beyond, List.append_nil]
  exact rest 0 []

theorem eq_of_toUTF8_toList_eq {first second : String}
    (same : first.toUTF8.toList = second.toUTF8.toList) : first = second := by
  rw [toList_eq_toList_data, toList_eq_toList_data] at same
  apply String.toByteArray_inj.mp
  apply ByteArray.ext
  exact Array.toList_inj.mp same

end Text
end CallTree
