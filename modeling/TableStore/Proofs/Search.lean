import Mathlib.Data.List.Find
import Mathlib.Data.List.Forall2
import Mathlib.Data.List.Induction

/-!
Searches through lists: repetitions, and tests that agree on every item, change nothing, and related
lists have related results.
-/

namespace TableStore

variable {α β : Type}

/-- Searches that agree on every item find the same. -/
theorem findSome?_congr {select other : α → Option β} {items : List α}
    (same : ∀ item ∈ items, select item = other item) :
    items.findSome? select = items.findSome? other := by
  -- The searches go on or stop at each item together.
  induction items with
  | nil => rfl
  | cons item items ih =>
    rw [List.findSome?_cons, List.findSome?_cons, same item List.mem_cons_self,
      ih fun item among => same item (List.mem_cons_of_mem _ among)]

/-- Searches through related lists find related items, or nothing in either. -/
theorem find?_of_forall₂ {related : α → β → Prop} {items : List α} {others : List β}
    (pairs : List.Forall₂ related items others) {test : α → Bool} {otherTest : β → Bool}
    (agree : ∀ item other, related item other → test item = otherTest other) {other : β}
    (found : others.find? otherTest = some other) :
    ∃ item, items.find? test = some item ∧ related item other := by
  -- The two lists are walked along together, pair by pair.
  induction pairs with
  | nil => simp at found
  | @cons item first items others isRelated _ ih =>
    rw [List.find?_cons] at found ⊢
    rw [agree item first isRelated]
    -- The searches stop at the same pair, and go on at the same pair.
    cases passes : otherTest first with
    | true =>
      rw [passes] at found
      obtain rfl := Option.some.inj found
      exact ⟨item, rfl, isRelated⟩
    | false =>
      rw [passes] at found
      exact ih found

/-- An item behind a list is dropped if it repeats one of the list. -/
theorem eraseDups_concat [BEq α] [LawfulBEq α] [DecidableEq α] (items : List α) (item : α) :
    (items ++ [item]).eraseDups =
      if item ∈ items then items.eraseDups else items.eraseDups ++ [item] := by
  -- What is left of the last item is what the list before it has not got.
  rw [List.eraseDups_append]
  split
  · next repeats =>
    have dropped : [item].removeAll items = [] := by simp [List.removeAll, repeats]
    rw [dropped, List.eraseDups_nil, List.append_nil]
  · next fresh =>
    have kept : [item].removeAll items = [item] := by simp [List.removeAll, fresh]
    rw [kept]
    simp [List.eraseDups_cons]

/-- Without their repetitions, items stand in the order in which they come first. -/
theorem pairwise_idxOf_eraseDups [BEq α] [LawfulBEq α] (items : List α) :
    items.eraseDups.Pairwise fun first second => items.idxOf first < items.idxOf second := by
  classical
  induction items using List.reverseRecOn with
  | nil => exact .nil
  | append_singleton items item ih =>
    -- An item behind the others does not change where they come first.
    have kept : ∀ other ∈ items.eraseDups, (items ++ [item]).idxOf other = items.idxOf other :=
      fun other among => List.idxOf_append_of_mem (List.mem_eraseDups.1 among)
    have pairwise : items.eraseDups.Pairwise fun first second =>
        (items ++ [item]).idxOf first < (items ++ [item]).idxOf second :=
      ih.imp_of_mem fun isFirst isSecond less => by rwa [kept _ isFirst, kept _ isSecond]
    rw [eraseDups_concat]
    split
    · exact pairwise
    · next fresh =>
      refine List.pairwise_append.2 ⟨pairwise, List.pairwise_singleton _ _, ?_⟩
      intro first among second isItem
      obtain rfl := List.mem_singleton.1 isItem
      rw [kept first among, List.idxOf_append_of_notMem fresh]
      exact Nat.lt_add_right _ (List.idxOf_lt_length_of_mem (List.mem_eraseDups.1 among))

/-- A list without its repetitions has none. -/
theorem nodup_eraseDups [BEq α] [LawfulBEq α] (items : List α) : items.eraseDups.Nodup :=
  -- The remaining items stand in the order in which they first occur, so that none does twice.
  (pairwise_idxOf_eraseDups items).imp fun less same => less.ne (congrArg items.idxOf same)

/-- A list that has no repetitions loses nothing without them. -/
theorem eraseDups_of_nodup [BEq α] [LawfulBEq α] {items : List α} (distinct : items.Nodup) :
    items.eraseDups = items := by
  -- The last item is none of those before it, so that it is kept behind them.
  classical
  induction items using List.reverseRecOn with
  | nil => rfl
  | append_singleton items item ih =>
    obtain ⟨front, -, apart⟩ := List.nodup_append.1 distinct
    rw [eraseDups_concat, if_neg fun repeats => apart item repeats item (by simp) rfl, ih front]

/-- To leave the repetitions out again changes nothing. -/
@[simp] theorem eraseDups_eraseDups [BEq α] [LawfulBEq α] (items : List α) :
    items.eraseDups.eraseDups = items.eraseDups :=
  -- The first pass has left none to be left out.
  eraseDups_of_nodup (nodup_eraseDups items)

/-- A search finds the same in a list and in the list without its repetitions. -/
theorem findSome?_eraseDups [BEq α] [LawfulBEq α] (select : α → Option β) (items : List α) :
    items.eraseDups.findSome? select = items.findSome? select := by
  classical
  -- An item that is dropped has been searched before.
  induction items using List.reverseRecOn with
  | nil => rfl
  | append_singleton items item ih =>
    rw [eraseDups_concat, List.findSome?_append, ← ih]
    split
    · next repeats =>
      -- A repetition finds nothing that was not found before.
      cases found : items.eraseDups.findSome? select with
      | some result => rfl
      | none =>
        have nothing := List.findSome?_eq_none_iff.1 found item (List.mem_eraseDups.2 repeats)
        simp [nothing]
    · rw [List.findSome?_append]

/-- The first item that passes a test is the same without repetitions. -/
theorem find?_eraseDups [BEq α] [LawfulBEq α] (test : α → Bool) (items : List α) :
    items.eraseDups.find? test = items.find? test := by
  -- A test is a search that gives back the item itself.
  simp only [← List.findSome?_guard, findSome?_eraseDups]

end TableStore
