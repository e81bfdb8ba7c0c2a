import Mathlib.Data.List.Nodup

/-!
# Lists with unique keys

Where no two elements of a list have the same key, a search finds exactly the element with its key. If the
keys ascend besides, the list is determined by what searches find in it. A list without its repetitions
grows at its end, by what is new (`eraseDupsBy_concat`).
-/
namespace SicXe

variable {α β : Type} {f : α → β}

theorem nodup_of_ascending {lt : β → β → Prop} (asymm : ∀ a b, lt a b → ¬ lt b a) {xs : List α}
    (ascending : xs.Pairwise fun a b => lt (f a) (f b)) : (xs.map f).Nodup := by
  refine List.pairwise_map.2 (ascending.imp fun {a b} below equal => ?_)
  rw [equal] at below
  exact asymm _ _ below below

variable [DecidableEq β]

/-- The element that is found for a key, if no two elements have the same. -/
theorem find?_eq_some_iff_of_nodup {xs : List α} (unique : (xs.map f).Nodup) {b : β} {a : α} :
    xs.find? (fun x => f x = b) = some a ↔ a ∈ xs ∧ f a = b := by
  constructor
  · intro found
    exact ⟨List.mem_of_find?_eq_some found, by simpa using List.find?_some found⟩
  · rintro ⟨member, same⟩
    cases found : xs.find? (fun x => f x = b) with
    | none => exact absurd same (by simpa using List.find?_eq_none.1 found a member)
    | some other =>
      have same' : f other = b := by simpa using List.find?_some found
      have equal := List.inj_on_of_nodup_map unique (List.mem_of_find?_eq_some found) member
        (same'.trans same.symm)
      rw [equal]

/-- With unique keys, the order of the elements does not matter. -/
theorem find?_eq_of_perm {xs ys : List α} (unique : (xs.map f).Nodup) (same : ys.Perm xs) (b : β) :
    ys.find? (fun x => f x = b) = xs.find? fun x => f x = b := by
  have unique' : (ys.map f).Nodup := (same.map f).nodup_iff.2 unique
  refine Option.ext fun a => ?_
  rw [find?_eq_some_iff_of_nodup unique, find?_eq_some_iff_of_nodup unique', same.mem_iff]

/-- Lists with ascending keys in which every search finds the same are one list. -/
theorem eq_of_find?_eq (f : α → β) {lt : β → β → Prop} (asymm : ∀ a b, lt a b → ¬ lt b a)
    {xs ys : List α} (ascending : xs.Pairwise fun a b => lt (f a) (f b))
    (ascending' : ys.Pairwise fun a b => lt (f a) (f b))
    (same : ∀ b, xs.find? (fun x => f x = b) = ys.find? fun x => f x = b) : xs = ys := by
  have unique := nodup_of_ascending asymm ascending
  have unique' := nodup_of_ascending asymm ascending'
  have members (a : α) : a ∈ xs ↔ a ∈ ys := by
    have found := find?_eq_some_iff_of_nodup unique (b := f a) (a := a)
    have found' := find?_eq_some_iff_of_nodup unique' (b := f a) (a := a)
    rw [same] at found
    simpa using found.symm.trans found'
  have permuted : xs.Perm ys :=
    (List.perm_ext_iff_of_nodup unique.of_map unique'.of_map).2 members
  exact permuted.eq_of_pairwise (fun a b _ _ below above => absurd above (asymm _ _ below))
    ascending ascending'

/-! ### Repetitions -/

/-- A list without repetitions that has grown by one: the new element counts if none of those before it
is the same. -/
theorem eraseDupsBy_concat (same : α → α → Bool) (xs : List α) (x : α) :
    (xs ++ [x]).eraseDupsBy same =
      if (xs.eraseDupsBy same).any (same x) then xs.eraseDupsBy same
      else xs.eraseDupsBy same ++ [x] := by
  have grown (xs seen : List α) : List.eraseDupsBy.loop same (xs ++ [x]) seen =
      if (List.eraseDupsBy.loop same xs seen).any (same x) then List.eraseDupsBy.loop same xs seen
      else List.eraseDupsBy.loop same xs seen ++ [x] := by
    induction xs generalizing seen with
    | nil =>
      simp only [List.nil_append, List.eraseDupsBy.loop, List.any_reverse]
      cases seen.any (same x) <;> simp
    | cons y rest ih =>
      simp only [List.cons_append, List.eraseDupsBy.loop]
      rcases Bool.eq_false_or_eq_true (seen.any (same y)) with known | known
      · simp only [known]
        exact ih seen
      · simp only [known]
        exact ih (y :: seen)
  exact grown xs []

end SicXe
