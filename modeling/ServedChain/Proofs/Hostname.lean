/-
  Names with their labels in the opposite order.

  * `labels_reverse`: the labels of the reversed name are those of the name, from
    the other end;
  * `perm_reverse`: it has the same characters, and `reverse_append`: two names
    with a dot between them change places;
  * `reverse_loses_nothing`: so a name is the reverse of its reverse.
-/
import ServedChain.Hostname

namespace ServedChain.Hostname

/-- The texts between the dots of a name, empty ones among them. -/
def labels (name : String) : List (List Char) := Text.split '.' name.toList

/-- How many UTF-16 units a text has: two for each character behind the first 65536. -/
def unitLength (text : String) : Nat := text.length + text.toList.countP (0x10000 ≤ ·.toNat)

theorem labels_ne_nil (name : String) : labels name ≠ [] := Text.split_ne_nil '.' _

theorem toList_reverse (name : String) :
    (reverse name).toList = Text.join '.' (labels name).reverse := String.toList_ofList

/-! ## Labels -/

/-- **The labels of the reversed name, from the left, are those of the name from the right.** -/
theorem labels_reverse (name : String) : labels (reverse name) = (labels name).reverse := by
  have hlabels : ∀ label ∈ (labels name).reverse, '.' ∉ label := by
    intro label hmem
    exact Text.not_mem_of_mem_split (List.mem_reverse.1 hmem)
  rw [labels, toList_reverse]
  exact Text.split_join (mt List.reverse_eq_nil_iff.1 (labels_ne_nil name)) hlabels

theorem labels_append (a b : String) : labels (a ++ "." ++ b) = labels a ++ labels b := by
  have htext : (a ++ "." ++ b).toList = a.toList ++ '.' :: b.toList := by
    simp [String.toList_append]
  rw [labels, htext]
  exact Text.split_append '.' _ _

theorem reverse_reverse (name : String) : reverse (reverse name) = name := by
  refine String.toList_inj.1 ?_
  rw [toList_reverse, labels_reverse, List.reverse_reverse]
  exact Text.join_split '.' _

theorem reverse_append (a b : String) : reverse (a ++ "." ++ b) = reverse b ++ "." ++ reverse a := by
  have ha : (labels a).reverse ≠ [] := mt List.reverse_eq_nil_iff.1 (labels_ne_nil a)
  have hb : (labels b).reverse ≠ [] := mt List.reverse_eq_nil_iff.1 (labels_ne_nil b)
  refine String.toList_inj.1 ?_
  rw [toList_reverse, labels_append, List.reverse_append, Text.join_append hb ha]
  simp [String.toList_append, toList_reverse]

/-! ## Characters -/

theorem perm_reverse (name : String) : (reverse name).toList.Perm name.toList := by
  have hjoin := Text.perm_join_of_perm '.' (List.reverse_perm (labels name))
  rwa [← toList_reverse, labels, Text.join_split] at hjoin

theorem length_reverse (name : String) : (reverse name).length = name.length := by
  have hlength := (perm_reverse name).length_eq
  rwa [String.length_toList, String.length_toList] at hlength

theorem unitLength_reverse (name : String) : unitLength (reverse name) = unitLength name := by
  rw [unitLength, unitLength, length_reverse, (perm_reverse name).countP_eq]

/-- **Turning the labels around loses nothing**, however the dots stand: the labels come in the
    opposite order, doing it again undoes it, the characters and so the length stay, and of two
    names with a dot between them each is turned around and they change places. -/
theorem reverse_loses_nothing :
    (∀ name : String, labels (reverse name) = (labels name).reverse
      ∧ reverse (reverse name) = name
      ∧ (reverse name).length = name.length
      ∧ unitLength (reverse name) = unitLength name
      ∧ (reverse name).toList.Perm name.toList)
    ∧ ∀ a b : String, reverse (a ++ "." ++ b) = reverse b ++ "." ++ reverse a := by
  refine ⟨fun name => ⟨labels_reverse name, reverse_reverse name, ?_⟩, reverse_append⟩
  exact ⟨length_reverse name, unitLength_reverse name, perm_reverse name⟩

example : reverse ".www..example.com" = "com.example..www." := by decide

end ServedChain.Hostname
