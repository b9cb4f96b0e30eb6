-- SUMMARY: Cursor paging: pages that are fetched one after the other, each from the key where the last one ended, deliver every item once and in order.
import Mathlib.Data.List.Basic

/-!
# Cursor paging

The items of a sequence have increasing keys. A page shows the first items above
the key it is asked for, up to a limit, as far as the sequence was visible when it
was asked for. The next page is asked for from the last key of the page. What is
visible may grow from page to page.
-/

namespace Paging

variable {α : Type*} (key : α → Nat) {low mid high stop : Nat} {xs : List α}

/-- The items with keys above `low` that are visible below `high`. -/
def window (low high : Nat) (xs : List α) : List α :=
  xs.filter fun x => low < key x ∧ key x < high

/-- A page that was asked for after `low`, when the keys below `high` were visible. -/
structure Page (α : Type*) where
  low : Nat
  high : Nat
  limit : Nat
  items : List α
  more : Bool

/-- The key to ask for after a page. -/
def Page.next (page : Page α) : Nat := (page.items.getLast?.map key).getD page.low

/-- The page shows the first items of its window, and says whether there are more. -/
structure Page.Serves (xs : List α) (page : Page α) : Prop where
  items : page.items = (window key page.low page.high xs).take page.limit
  more : page.more ↔ page.limit < (window key page.low page.high xs).length

/-- Pages one after the other, from one key to another. -/
inductive Chain : Nat → List (Page α) → Nat → Prop where
  | nil {low : Nat} : Chain low [] low
  | cons {page : Page α} {pages : List (Page α)} {stop : Nat}
      (h : Chain (page.next key) pages stop) : Chain page.low (page :: pages) stop

variable {key}

/-! ## Increasing keys -/

/-- A selection of items with increasing keys may be cut at any key. -/
theorem filter_split (hkeys : xs.Pairwise (key · < key ·)) (p : α → Bool) (mid : Nat) :
    (xs.filter fun x => p x && decide (key x ≤ mid)) ++
      (xs.filter fun x => p x && decide (mid < key x)) = xs.filter p := by
  induction xs with
  | nil => rfl
  | cons x xs ih =>
    have ⟨hafter, hrest⟩ := List.pairwise_cons.mp hkeys
    have hih := ih hrest
    by_cases hx : key x ≤ mid
    · have hnot : ¬ mid < key x := Nat.not_lt.mpr hx
      cases hp : p x with
      | false => simp [hp, hih]
      | true => simp [hp, hx, hih]
    · have hmid : mid < key x := Nat.lt_of_not_le hx
      have hnone : (xs.filter fun x => p x && decide (key x ≤ mid)) = [] := by
        rw [List.filter_eq_nil_iff]
        intro y hy
        have hlt := hafter y hy
        simp only [Bool.and_eq_true, decide_eq_true_eq, not_and, Nat.not_le]
        intro _
        omega
      rw [hnone, List.nil_append] at hih
      cases hp : p x with
      | false => simp [hp, hnone, hih]
      | true => simp [hp, hx, hmid, hnone, hih]

/-- The first items are those up to the last of their keys. -/
theorem take_eq_filter (hkeys : xs.Pairwise (key · < key ·)) {n : Nat} {last : α}
    (hlast : (xs.take n).getLast? = some last) :
    xs.take n = xs.filter fun x => key x ≤ key last := by
  obtain ⟨front, hfront⟩ := List.getLast?_eq_some_iff.mp hlast
  have hsplit := hkeys
  rw [← List.take_append_drop n xs, List.pairwise_append] at hsplit
  obtain ⟨htake, -, hacross⟩ := hsplit
  have hmem : last ∈ xs.take n := hfront ▸ List.mem_append_right _ List.mem_cons_self
  have hlow : (xs.take n).filter (fun x => key x ≤ key last) = xs.take n := by
    rw [List.filter_eq_self]
    intro x hx
    rw [hfront] at htake hx
    rcases List.mem_append.mp hx with hx | hx
    · have hlt := (List.pairwise_append.mp htake).2.2 x hx last List.mem_cons_self
      exact decide_eq_true (Nat.le_of_lt hlt)
    · exact decide_eq_true (Nat.le_of_eq (congrArg key (List.mem_singleton.mp hx)))
  have hhigh : (xs.drop n).filter (fun x => key x ≤ key last) = [] := by
    rw [List.filter_eq_nil_iff]
    intro x hx
    have hlt := hacross last hmem x hx
    simp only [decide_eq_true_eq]
    omega
  calc xs.take n = (xs.take n).filter (fun x => key x ≤ key last) ++
        (xs.drop n).filter (fun x => key x ≤ key last) := by rw [hlow, hhigh, List.append_nil]
    _ = xs.filter fun x => key x ≤ key last := by
      rw [← List.filter_append, List.take_append_drop]

/-! ## Pages -/

/-- A page holds exactly the items between the keys that it leads from and to. -/
theorem Page.Serves.items_eq {page : Page α} (hkeys : xs.Pairwise (key · < key ·))
    (h : page.Serves key xs) :
    page.low ≤ page.next key ∧
      page.items = xs.filter fun x => page.low < key x ∧ key x ≤ page.next key := by
  cases hlast : page.items.getLast? with
  | none =>
    have hnext : page.next key = page.low := by rw [Page.next, hlast]; rfl
    refine ⟨Nat.le_of_eq hnext.symm, ?_⟩
    rw [List.getLast?_eq_none_iff.mp hlast, hnext, eq_comm, List.filter_eq_nil_iff]
    intro x _
    simp only [decide_eq_true_eq]
    omega
  | some last =>
    have hnext : page.next key = key last := by rw [Page.next, hlast]; rfl
    have hwindow := hkeys.filter fun x => decide (page.low < key x ∧ key x < page.high)
    have hmem : last ∈ window key page.low page.high xs := by
      refine List.mem_of_mem_take (i := page.limit) ?_
      rw [← h.items]
      exact List.mem_of_getLast? hlast
    have hbounds : page.low < key last ∧ key last < page.high := by
      simpa using (List.mem_filter.mp hmem).2
    refine ⟨hnext ▸ Nat.le_of_lt hbounds.1, ?_⟩
    rw [h.items] at hlast ⊢
    refine (take_eq_filter hwindow hlast).trans ?_
    rw [List.filter_filter, hnext]
    refine List.filter_congr fun x _ => ?_
    rw [← Bool.decide_and, decide_eq_decide]
    omega

/-- Pages one after the other deliver what lies between their ends. -/
theorem Chain.items_eq {pages : List (Page α)} (hkeys : xs.Pairwise (key · < key ·))
    (h : Chain key low pages stop) (hserves : ∀ page ∈ pages, page.Serves key xs) :
    low ≤ stop ∧ pages.flatMap (·.items) = xs.filter fun x => low < key x ∧ key x ≤ stop := by
  induction h with
  | nil =>
    refine ⟨Nat.le_refl _, ?_⟩
    rw [List.flatMap_nil, eq_comm, List.filter_eq_nil_iff]
    intro x _
    simp only [decide_eq_true_eq]
    omega
  | @cons page pages stop _ ih =>
    have ⟨hpage, hpages⟩ := List.forall_mem_cons.mp hserves
    obtain ⟨hle, hitems⟩ := hpage.items_eq hkeys
    obtain ⟨hle', hrest⟩ := ih hpages
    refine ⟨Nat.le_trans hle hle', ?_⟩
    rw [List.flatMap_cons, hitems, hrest, ← filter_split hkeys
      (fun x => page.low < key x ∧ key x ≤ stop) (page.next key)]
    congr 1 <;> refine List.filter_congr fun x _ => ?_
    all_goals
      rw [← Bool.decide_and, decide_eq_decide]
      omega

theorem Chain.append {pages pages' : List (Page α)} (h : Chain key low (pages ++ pages') stop) :
    ∃ mid, Chain key low pages mid ∧ Chain key mid pages' stop := by
  induction pages generalizing low with
  | nil => exact ⟨low, .nil, h⟩
  | cons page pages ih =>
    cases h with
    | cons h =>
      obtain ⟨mid, hfront, hback⟩ := ih h
      exact ⟨mid, .cons hfront, hback⟩

/-- The pages up to one that sees everything and announces no more deliver
    everything. -/
theorem Chain.complete {pages : List (Page α)} {page : Page α}
    (hkeys : xs.Pairwise (key · < key ·)) (h : Chain key low (pages ++ [page]) stop)
    (hserves : ∀ page' ∈ pages ++ [page], page'.Serves key xs) (hmore : page.more = false)
    (hvisible : ∀ x ∈ xs, key x < page.high) :
    (pages ++ [page]).flatMap (·.items) = xs.filter fun x => low < key x := by
  obtain ⟨mid, hfront, hback⟩ := h.append
  obtain ⟨hpages, hpage⟩ := List.forall_mem_append.mp hserves
  have hpage := hpage page List.mem_cons_self
  cases hback with
  | cons _ =>
    obtain ⟨hle, hitems⟩ := hfront.items_eq hkeys hpages
    have hlimit : (window key page.low page.high xs).length ≤ page.limit := by
      by_contra hlt
      rw [hpage.more.mpr (Nat.lt_of_not_le hlt)] at hmore
      cases hmore
    have hlast : page.items = xs.filter fun x => page.low < key x := by
      rw [hpage.items, List.take_of_length_le hlimit]
      refine List.filter_congr fun x hx => ?_
      simp [hvisible x hx]
    rw [List.flatMap_append, List.flatMap_singleton, hitems, hlast,
      ← filter_split hkeys (fun x => low < key x) page.low]
    congr 1
    · exact List.filter_congr fun x _ => by simp
    · refine List.filter_congr fun x _ => ?_
      rw [← Bool.decide_and, decide_eq_decide]
      omega

end Paging
