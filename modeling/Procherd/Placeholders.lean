-- SUMMARY: Placeholders in arguments: the passes of `replace_placeholders` are one simultaneous substitution unless an inserted value takes part in placeholder text.
import Procherd.LeaseDelivery

/-!
# Placeholders

`replace_placeholders` replaces one lease after the other in the whole text and
then looks for leftovers. A value that is inserted by one pass is scanned by the
later passes and by the search for leftovers.
-/

namespace Procherd

/-! ## Occurrences and replacement -/

section Text

variable {p r : List Char}

/-- The number of positions at which `p` begins. -/
def occurrences (p : List Char) : List Char → Nat
  | [] => 0
  | c :: rest => (if p.isPrefixOf (c :: rest) then 1 else 0) + occurrences p rest

theorem isPrefixOf_append {a : List Char} (b : List Char) (h : p.isPrefixOf a) :
    p.isPrefixOf (a ++ b) :=
  List.isPrefixOf_iff_prefix.mpr ((List.isPrefixOf_iff_prefix.mp h).trans (List.prefix_append a b))

theorem occursHere_le (p a b : List Char) :
    (if p.isPrefixOf a then 1 else 0) ≤ if p.isPrefixOf (a ++ b) then 1 else 0 := by
  split
  · rename_i h
    rw [if_pos (isPrefixOf_append b h)]
  · exact Nat.zero_le _

theorem occurrences_append_le (p a b : List Char) :
    occurrences p a + occurrences p b ≤ occurrences p (a ++ b) := by
  induction a with
  | nil => simp [occurrences]
  | cons c a ih =>
    have hhead := occursHere_le p (c :: a) b
    simp only [occurrences, List.cons_append] at hhead ⊢
    omega

/-- Where no occurrence lies across the boundary, the parts are replaced by
    themselves. -/
theorem replaceChars_append {a b : List Char} {skip : Nat}
    (h : occurrences p (a ++ b) = occurrences p a + occurrences p b) (hskip : skip ≤ a.length) :
    replaceChars p r skip (a ++ b) = replaceChars p r skip a ++ replaceChars p r 0 b := by
  induction a generalizing skip with
  | nil =>
    obtain rfl : skip = 0 := Nat.le_zero.mp hskip
    rfl
  | cons c a ih =>
    -- Neither the head nor the tail has an occurrence of its own in `a ++ b`.
    have hle := occurrences_append_le p a b
    have hhere := occursHere_le p (c :: a) b
    simp only [occurrences, List.cons_append] at h hhere
    have htail : occurrences p (a ++ b) = occurrences p a + occurrences p b := by omega
    have hhead : p.isPrefixOf (c :: (a ++ b)) = p.isPrefixOf (c :: a) := by
      cases hx : p.isPrefixOf (c :: a) <;> cases hy : p.isPrefixOf (c :: (a ++ b)) <;>
        simp [hx, hy] at h ⊢ <;> omega
    cases skip with
    | succ skip =>
      simp only [List.cons_append, replaceChars]
      exact ih htail (Nat.le_of_succ_le_succ hskip)
    | zero =>
      simp only [List.cons_append, replaceChars, hhead]
      split
      · rename_i hpre
        have hlength := (List.isPrefixOf_iff_prefix.mp hpre).length_le
        rw [ih htail (by simpa using hlength), List.append_assoc]
      · rw [ih htail (Nat.zero_le _), List.cons_append]

theorem replaceChars_of_absent {a : List Char} (h : occurrences p a = 0) :
    replaceChars p r 0 a = a := by
  induction a with
  | nil => rfl
  | cons c a ih =>
    have ⟨hhead, htail⟩ := Nat.add_eq_zero_iff.mp h
    rw [replaceChars, if_neg (by simpa using hhead), ih htail]

theorem replaceChars_skip (a : List Char) : replaceChars p r a.length a = [] := by
  induction a with
  | nil => rfl
  | cons c a ih => rw [List.length_cons, replaceChars, ih]

theorem replaceChars_self (hp : p ≠ []) : replaceChars p r 0 p = r := by
  cases p with
  | nil => exact absurd rfl hp
  | cons c rest =>
    rw [replaceChars, if_pos (List.isPrefixOf_iff_prefix.mpr (List.prefix_refl _)),
      List.length_cons, Nat.add_sub_cancel, replaceChars_skip, List.append_nil]

end Text

/-! ## Braces -/

section Braces

/-- The only braces of a placeholder are at its ends. -/
def Braced (p : List Char) : Prop := ∃ body, p = '{' :: (body ++ ['}']) ∧ '{' ∉ body ∧ '}' ∉ body

variable {p q a t t' : List Char}

theorem Braced.ne_nil (h : Braced p) : p ≠ [] := by
  obtain ⟨body, rfl, -⟩ := h
  exact List.cons_ne_nil _ _

/-- Braced texts do not overlap: at one position there is one of them. -/
theorem Braced.prefix_append_iff (hp : Braced p) (hq : Braced q) : p <+: q ++ t ↔ p = q := by
  have hsame {p q : List Char} (hp : Braced p) (hq : Braced q) (h : p <+: q) : p = q := by
    obtain ⟨body, rfl, -, -⟩ := hp
    obtain ⟨body', rfl, -, hclose⟩ := hq
    have h : '{' :: (body ++ ['}']) <+: ('{' :: body') ++ ['}'] := h
    rcases List.prefix_concat_iff.mp h with heq | hpre
    · exact heq
    · have hmem : '}' ∈ '{' :: body' := hpre.subset (by simp)
      simp [hclose] at hmem
  refine ⟨fun h => ?_, fun h => h ▸ List.prefix_append p t⟩
  rcases List.prefix_or_prefix_of_prefix h (List.prefix_append q t) with h | h
  · exact hsame hp hq h
  · exact (hsame hq hp h).symm

theorem occurrences_of_not_mem (hp : Braced p) (h : '{' ∉ a) :
    occurrences p (a ++ t) = occurrences p t := by
  induction a with
  | nil => rfl
  | cons c a ih =>
    have ⟨hc, ha⟩ := not_or.mp (mt List.mem_cons.mpr h)
    obtain ⟨body, rfl, -⟩ := hp
    rw [List.cons_append, occurrences, if_neg, Nat.zero_add, ih ha]
    simp [hc]

/-- Before other text, a braced text has the one occurrence of itself. -/
theorem Braced.occurrences_append (hp : Braced p) (hq : Braced q) :
    occurrences p (q ++ t) = (if p = q then 1 else 0) + occurrences p t := by
  have hhead := hp.prefix_append_iff (t := t) hq
  obtain ⟨body, rfl, hopen, -⟩ := hq
  have htail : '{' ∉ body ++ ['}'] := by simpa using hopen
  rw [List.cons_append, occurrences, occurrences_of_not_mem hp htail]
  simp only [List.isPrefixOf_iff_prefix]
  exact congrArg (· + _) (if_congr hhead rfl rfl)

end Braces

/-! ## One-pass substitution -/

/-- A placeholder and the value of its lease. -/
abbrev Binding := List Char × List Char

/-- The placeholders in the order in which they are replaced. -/
def leaseBindings (ports tempDirectories : BTreeMap String) : List Binding :=
  ports.map (fun entry => ((portPlaceholder entry.1).toList, entry.2.toList)) ++
    tempDirectories.map fun entry => ((tempPlaceholder entry.1).toList, entry.2.toList)

/-- An argument is a sequence of characters and placeholders. -/
abbrev Piece := Char ⊕ Binding

/-- Cut a text into its characters and the placeholders of `bindings`. -/
def pieces (bindings : List Binding) : Nat → List Char → List Piece
  | _, [] => []
  | skip + 1, _ :: rest => pieces bindings skip rest
  | 0, c :: rest =>
    match bindings.find? fun b => b.1.isPrefixOf (c :: rest) with
    | some b => .inr b :: pieces bindings (b.1.length - 1) rest
    | none => .inl c :: pieces bindings 0 rest

/-- The text of pieces with the placeholders of `done` replaced by their values. -/
def render (done : List Binding) (ps : List Piece) : List Char :=
  ps.flatMap fun
    | .inl c => [c]
    | .inr b => if b ∈ done then b.2 else b.1

/-- A text with the placeholders of `done` replaced, all at once. -/
def expand (bindings done : List Binding) (text : List Char) : List Char :=
  render done (pieces bindings 0 text)

/-- A text that begins with placeholder syntax. -/
def marked (text : List Char) : Bool :=
  "\x7bport:".toList.isPrefixOf text || "\x7btemp:".toList.isPrefixOf text

/-- Some placeholder syntax begins no placeholder of `bindings`. -/
def malformed (bindings : List Binding) : List Char → Bool
  | [] => false
  | c :: rest =>
    (marked (c :: rest) && !bindings.any fun b => b.1.isPrefixOf (c :: rest)) ||
      malformed bindings rest

/-- The search for leftovers. -/
def leftover : List Char → Bool
  | [] => false
  | c :: rest => marked (c :: rest) || leftover rest

section Pieces

variable {bindings done : List Binding} {b : Binding} {ps : List Piece} {c : Char}

@[simp] theorem render_nil : render done [] = [] := rfl

@[simp] theorem render_char : render done (.inl c :: ps) = c :: render done ps := rfl

@[simp] theorem render_slot :
    render done (.inr b :: ps) = (if b ∈ done then b.2 else b.1) ++ render done ps := rfl

/-- What cutting says about a sequence of pieces. -/
inductive Cut (bindings : List Binding) : List Piece → Prop where
  | nil : Cut bindings []
  | char {c : Char} {ps : List Piece} (hfree : ∀ b ∈ bindings, ¬ b.1 <+: c :: render [] ps)
      (h : Cut bindings ps) : Cut bindings (.inl c :: ps)
  | slot {b : Binding} {ps : List Piece} (hb : b ∈ bindings) (h : Cut bindings ps) :
      Cut bindings (.inr b :: ps)

theorem pieces_cut (hne : ∀ b ∈ bindings, b.1 ≠ []) (skip : Nat) (text : List Char) :
    render [] (pieces bindings skip text) = text.drop skip ∧
      Cut bindings (pieces bindings skip text) := by
  induction text generalizing skip with
  | nil => exact ⟨by rw [pieces, List.drop_nil]; rfl, .nil⟩
  | cons c rest ih =>
    cases skip with
    | succ skip => exact ih skip
    | zero =>
      rw [pieces, List.drop_zero]
      split
      · rename_i b hfind
        have hb := List.mem_of_find?_eq_some hfind
        have hpre : b.1 <+: c :: rest := by simpa using List.find?_some hfind
        have ⟨hrest, hcut⟩ := ih (b.1.length - 1)
        refine ⟨?_, .slot hb hcut⟩
        obtain ⟨tail, htail⟩ := hpre
        obtain ⟨k, hk⟩ := Nat.exists_eq_succ_of_ne_zero (mt List.length_eq_zero_iff.mp (hne b hb))
        have hdrop : rest.drop (b.1.length - 1) = tail := by
          rw [hk, Nat.succ_sub_one, ← List.drop_succ_cons, ← htail, ← Nat.succ_eq_add_one, ← hk,
            List.drop_left]
        rw [render_slot, if_neg List.not_mem_nil, hrest, hdrop, htail]
      · rename_i hfind
        have ⟨hrest, hcut⟩ := ih 0
        refine ⟨by rw [render_char, hrest, List.drop_zero], .char (fun b hb => ?_) hcut⟩
        rw [hrest, List.drop_zero, ← List.isPrefixOf_iff_prefix]
        simpa using List.find?_eq_none.mp hfind b hb

/-! Occurrences of a placeholder in rendered pieces. -/

/-- How often a placeholder was cut out. -/
def slots (b : Binding) (ps : List Piece) : Nat := ps.countP (· = .inr b)

/-- The placeholders of leases with distinct names. -/
structure Bindings (bindings : List Binding) : Prop where
  braced : ∀ b ∈ bindings, Braced b.1
  distinct : (bindings.map Prod.fst).Nodup
  marked : ∀ b ∈ bindings, ∀ t, b.1 <+: t → marked t

theorem Bindings.eq_of_fst (h : Bindings bindings) {b b' : Binding} (hb : b ∈ bindings)
    (hb' : b' ∈ bindings) : b.1 = b'.1 ↔ b = b' :=
  ⟨fun heq => List.inj_on_of_nodup_map h.distinct hb hb' heq, congrArg _⟩

theorem Cut.mem (h : Cut bindings ps) : ∀ b, .inr b ∈ ps → b ∈ bindings := by
  induction h with
  | nil => exact fun _ hmem => nomatch hmem
  | char _ _ ih => exact fun b hmem => ih b (by simpa using hmem)
  | slot hb _ ih =>
    intro b' hmem
    rcases List.mem_cons.mp hmem with heq | hmem
    · cases heq
      exact hb
    · exact ih b' hmem

/-- In the argument itself a placeholder occurs just where it was cut out. -/
theorem Cut.occurrences_text (h : Cut bindings ps) (hB : Bindings bindings) (hb : b ∈ bindings) :
    occurrences b.1 (render [] ps) = slots b ps := by
  induction h with
  | nil => rfl
  | char hfree _ ih =>
    rw [render_char, occurrences, if_neg (by simpa using hfree b hb), ih]
    simp [slots]
  | @slot b' ps hb' _ ih =>
    rw [render_slot, if_neg List.not_mem_nil, (hB.braced b hb).occurrences_append (hB.braced b' hb'),
      ih, slots, slots, List.countP_cons, Nat.add_comm]
    simp [hB.eq_of_fst hb hb', eq_comm]

theorem slots_char : slots b (.inl c :: ps) = slots b ps := by
  simp [slots]

theorem slots_slot (b' : Binding) :
    slots b (.inr b' :: ps) = (if b = b' then 1 else 0) + slots b ps := by
  simp [slots, List.countP_cons, Nat.add_comm, eq_comm]

theorem occurrences_char (hb : Braced b.1) : occurrences b.1 [c] = 0 := by
  obtain ⟨body, heq, -⟩ := hb
  rw [heq, occurrences, occurrences, if_neg]
  simp

theorem Cut.slots_le (h : Cut bindings ps) (hB : Bindings bindings) (hb : b ∈ bindings)
    (hfresh : b ∉ done) : slots b ps ≤ occurrences b.1 (render done ps) := by
  have hbraced := hB.braced b hb
  induction h with
  | nil => exact Nat.zero_le _
  | @char c ps _ _ ih =>
    have happend := occurrences_append_le b.1 [c] (render done ps)
    rw [occurrences_char hbraced] at happend
    rw [slots_char]
    exact ih.trans ((Nat.zero_add _).symm.le.trans happend)
  | @slot b' ps hb' _ ih =>
    rw [render_slot, slots_slot]
    split
    · rename_i heq
      rw [if_neg (heq ▸ hfresh), hbraced.occurrences_append (hB.braced b' hb'), if_pos (heq ▸ rfl)]
      exact Nat.add_le_add_left ih 1
    · have happend := occurrences_append_le b.1 (if b' ∈ done then b'.2 else b'.1) (render done ps)
      omega

/-- One pass: where the text has no occurrence of the placeholder but those of
    the argument, the pass puts the value of its lease into these. -/
theorem Cut.replace_render (h : Cut bindings ps) (hB : Bindings bindings) (hb : b ∈ bindings)
    (hfresh : b ∉ done) (hcount : occurrences b.1 (render done ps) ≤ slots b ps) :
    replaceChars b.1 b.2 0 (render done ps) = render (done ++ [b]) ps := by
  have hbraced := hB.braced b hb
  induction h with
  | nil => rfl
  | @char c ps _ h ih =>
    have happend := occurrences_append_le b.1 [c] (render done ps)
    have hslots := h.slots_le hB hb hfresh
    rw [List.singleton_append, occurrences_char hbraced] at happend
    rw [render_char, slots_char] at hcount
    have hsplit : occurrences b.1 ([c] ++ render done ps) =
        occurrences b.1 [c] + occurrences b.1 (render done ps) := by
      rw [List.singleton_append, occurrences_char hbraced]
      omega
    rw [render_char, render_char, ← List.singleton_append, replaceChars_append hsplit (Nat.zero_le _),
      replaceChars_of_absent (occurrences_char hbraced), ih (by omega)]
    rfl
  | @slot b' ps hb' h ih =>
    have hslots := h.slots_le hB hb hfresh
    rw [render_slot, slots_slot] at hcount
    rw [render_slot, render_slot]
    by_cases heq : b = b'
    · subst heq
      have hself : occurrences b.1 b.1 = 1 := by
        simpa [occurrences] using hbraced.occurrences_append hbraced (t := [])
      rw [if_neg hfresh, if_pos rfl, hbraced.occurrences_append hbraced, if_pos rfl] at hcount
      rw [if_neg hfresh, if_pos (by simp), replaceChars_append ?_ (Nat.zero_le _),
        replaceChars_self hbraced.ne_nil, ih (by omega)]
      rw [hself, hbraced.occurrences_append hbraced, if_pos rfl]
    · rw [if_neg heq, Nat.zero_add] at hcount
      have happend := occurrences_append_le b.1 (if b' ∈ done then b'.2 else b'.1) (render done ps)
      have habsent : occurrences b.1 (if b' ∈ done then b'.2 else b'.1) = 0 := by omega
      have hkept : b' ∈ done ++ [b] ↔ b' ∈ done := by simp [Ne.symm heq]
      rw [replaceChars_append (by omega) (Nat.zero_le _), replaceChars_of_absent habsent,
        ih (by omega), if_congr hkept rfl rfl]

/-! Syntax that appears when values are inserted. -/

theorem marked_cons {t : List Char} :
    marked (c :: t) ↔ c = '{' ∧ ("port:".toList <+: t ∨ "temp:".toList <+: t) := by
  have hport : "\x7bport:".toList = '{' :: "port:".toList := by decide
  have htemp : "\x7btemp:".toList = '{' :: "temp:".toList := by decide
  rw [marked, hport, htemp, Bool.or_eq_true, List.isPrefixOf_iff_prefix, List.isPrefixOf_iff_prefix,
    List.cons_prefix_cons, List.cons_prefix_cons, ← and_or_left, eq_comm]

theorem leftover_append (a : List Char) {t : List Char} (h : leftover t) : leftover (a ++ t) := by
  induction a with
  | nil => exact h
  | cons c a ih => rw [List.cons_append, leftover, ih, Bool.or_true]

theorem malformed_append {a t : List Char} (ha : '{' ∉ a) (h : malformed bindings (a ++ t)) :
    malformed bindings t := by
  induction a with
  | nil => exact h
  | cons c a ih =>
    have ⟨hc, ha⟩ := not_or.mp (mt List.mem_cons.mpr ha)
    rw [List.cons_append, malformed, Bool.or_eq_true, Bool.and_eq_true] at h
    rcases h with ⟨hmarked, -⟩ | h
    · exact absurd (marked_cons.mp hmarked).1.symm hc
    · exact ih ha h

theorem prefix_of_prefix_brace {q a t : List Char} (hq : '{' ∉ q) (h : q <+: a ++ '{' :: t) :
    q <+: a := by
  rcases List.prefix_or_prefix_of_prefix h (List.prefix_append a _) with h' | ⟨rest, rfl⟩
  · exact h'
  · cases rest with
    | nil => rw [List.append_nil]
    | cons c rest =>
      have hc := (List.cons_prefix_cons.mp ((List.prefix_append_right_inj a).mp h)).1
      exact absurd (by simp [hc]) hq

/-- Text without a brace that begins a rendered text begins it after all other
    passes, too: it ends before the next placeholder. -/
theorem Cut.prefix_render (h : Cut bindings ps) (hB : Bindings bindings) {q a : List Char}
    (hq : '{' ∉ q) (hpre : q <+: a ++ render done ps) : q <+: a ++ render bindings ps := by
  induction h generalizing a with
  | nil => exact hpre
  | @char c ps _ _ ih =>
    have hih := @ih (a ++ [c])
    simp only [List.append_assoc, List.singleton_append] at hih
    exact hih hpre
  | @slot b ps hb _ ih =>
    rw [render_slot] at hpre ⊢
    rw [if_pos hb]
    split at hpre
    · rw [← List.append_assoc] at hpre ⊢
      exact ih hpre
    · obtain ⟨body, heq, -⟩ := hB.braced b hb
      rw [heq] at hpre
      exact (prefix_of_prefix_brace hq hpre).trans (List.prefix_append a _)

/-- A placeholder that occurs elsewhere than in the argument leaves syntax in
    the fully substituted text. -/
theorem Cut.occurrences_le (h : Cut bindings ps) (hB : Bindings bindings) (hb : b ∈ bindings)
    (hclean : leftover (render bindings ps) = false) :
    occurrences b.1 (render done ps) ≤ slots b ps := by
  obtain ⟨body, hbody, hopen, -⟩ := hB.braced b hb
  have htail : '{' ∉ body ++ ['}'] := by simpa using hopen
  -- Text that no pass changes has no occurrence of the placeholder.
  have hkept {ps : List Piece} (h : Cut bindings ps) (a : List Char)
      (hclean : leftover (a ++ render bindings ps) = false) :
      occurrences b.1 (a ++ render done ps) = occurrences b.1 (render done ps) := by
    induction a with
    | nil => rfl
    | cons c a ih =>
      rw [List.cons_append, leftover, Bool.or_eq_false_iff] at hclean
      rw [List.cons_append, occurrences, if_neg, Nat.zero_add, ih hclean.2]
      rw [List.isPrefixOf_iff_prefix, hbody, List.cons_prefix_cons]
      rintro ⟨rfl, hpre⟩
      have hmarked := hB.marked b hb ('{' :: (a ++ render bindings ps))
        (hbody ▸ List.cons_prefix_cons.mpr ⟨rfl, h.prefix_render hB htail hpre⟩)
      rw [hclean.1] at hmarked
      cases hmarked
  induction h with
  | nil => exact Nat.zero_le _
  | @char c ps _ h ih =>
    have hrest : leftover (render bindings ps) = false := by
      rw [render_char, leftover, Bool.or_eq_false_iff] at hclean
      exact hclean.2
    rw [slots_char, render_char, ← List.singleton_append, hkept h [c] hclean]
    exact ih hrest
  | @slot b' ps hb' h ih =>
    rw [render_slot, if_pos hb'] at hclean
    have hrest : leftover (render bindings ps) = false := by
      rw [← Bool.not_eq_true]
      exact fun hleft => absurd (leftover_append b'.2 hleft) (by simp [hclean])
    rw [slots_slot, render_slot]
    split
    · rw [hkept h _ hclean]
      exact (ih hrest).trans (Nat.le_add_left _ _)
    · rw [(hB.braced b hb).occurrences_append (hB.braced b' hb'), if_congr (hB.eq_of_fst hb hb') rfl rfl]
      exact Nat.add_le_add_left (ih hrest) _

/-- Malformed syntax of the argument stays. -/
theorem Cut.leftover_of_malformed (h : Cut bindings ps) (hB : Bindings bindings)
    (hmalformed : malformed bindings (render [] ps)) : leftover (render bindings ps) := by
  induction h with
  | nil => cases hmalformed
  | @char c ps _ h ih =>
    rw [render_char, malformed, Bool.or_eq_true, Bool.and_eq_true] at hmalformed
    rw [render_char, leftover, Bool.or_eq_true]
    refine hmalformed.imp (fun hhere => ?_) ih
    obtain ⟨rfl, hsyntax⟩ := marked_cons.mp hhere.1
    refine marked_cons.mpr ⟨rfl, hsyntax.imp (fun hp => ?_) fun hp => ?_⟩
    · exact h.prefix_render hB (a := []) (by decide) hp
    · exact h.prefix_render hB (a := []) (by decide) hp
  | @slot b ps hb h ih =>
    rw [render_slot, if_neg List.not_mem_nil] at hmalformed
    rw [render_slot, if_pos hb]
    refine leftover_append _ (ih ?_)
    obtain ⟨body, hbody, hopen, -⟩ := hB.braced b hb
    have hany : bindings.any (fun b' => b'.1.isPrefixOf (b.1 ++ render [] ps)) :=
      List.any_eq_true.mpr ⟨b, hb, List.isPrefixOf_iff_prefix.mpr (List.prefix_append _ _)⟩
    rw [hbody, List.cons_append] at hmalformed hany
    rw [malformed, hany, Bool.not_true, Bool.and_false, Bool.false_or] at hmalformed
    exact malformed_append (by simpa using hopen) hmalformed

/-! ## The passes -/

/-- One lease after the other. -/
def passes (bindings : List Binding) (text : List Char) : List Char :=
  bindings.foldl (fun text b => replaceChars b.1 b.2 0 text) text

theorem Cut.passes_eq (h : Cut bindings ps) (hB : Bindings bindings)
    (hclean : ∀ done b rest, bindings = done ++ b :: rest →
      occurrences b.1 (render done ps) ≤ slots b ps) :
    passes bindings (render [] ps) = render bindings ps := by
  suffices hrest : ∀ done rest, bindings = done ++ rest →
      passes rest (render done ps) = render bindings ps from hrest [] bindings rfl
  intro done rest
  induction rest generalizing done with
  | nil =>
    intro heq
    rw [heq, List.append_nil]
    rfl
  | cons b rest ih =>
    intro heq
    have hb : b ∈ bindings := heq ▸ List.mem_append_right _ List.mem_cons_self
    have hfresh : b ∉ done := by
      have hnodup := hB.distinct.of_map
      rw [heq, List.nodup_append] at hnodup
      exact fun hmem => hnodup.2.2 b hmem b List.mem_cons_self rfl
    rw [passes, List.foldl_cons, h.replace_render hB hb hfresh (hclean done b rest heq)]
    exact ih (done ++ [b]) (by rw [heq, List.append_assoc, List.singleton_append])

/-- No inserted value takes part in placeholder syntax. In a well-formed argument,
    inserting the values forms no syntax; in a malformed one, inserting the values
    of some leases forms no placeholder of the lease that is replaced next. -/
def Inert (bindings : List Binding) (text : List Char) : Prop :=
  if malformed bindings text then
    ∀ done b rest, bindings = done ++ b :: rest →
      occurrences b.1 (expand bindings done text) = occurrences b.1 text
  else leftover (expand bindings bindings text) = false

theorem passes_of_inert (hB : Bindings bindings) {text : List Char} (h : Inert bindings text) :
    passes bindings text = expand bindings bindings text := by
  obtain ⟨htext, hcut⟩ := pieces_cut (fun b hb => (hB.braced b hb).ne_nil) 0 text
  rw [List.drop_zero] at htext
  have hpasses := hcut.passes_eq hB fun done b rest heq => ?_
  · rwa [htext] at hpasses
  have hb : b ∈ bindings := heq ▸ List.mem_append_right _ List.mem_cons_self
  unfold Inert at h
  split at h
  · rw [← hcut.occurrences_text hB hb, htext]
    exact (h done b rest heq).le
  · exact hcut.occurrences_le hB hb h

theorem leftover_expand (hB : Bindings bindings) {text : List Char} (h : malformed bindings text) :
    leftover (expand bindings bindings text) := by
  obtain ⟨htext, hcut⟩ := pieces_cut (fun b hb => (hB.braced b hb).ne_nil) 0 text
  rw [List.drop_zero] at htext
  exact hcut.leftover_of_malformed hB (htext.symm ▸ h)

end Pieces

theorem foldl_replaceAll (placeholder : String → String) (entries : BTreeMap String)
    (value : String) :
    (entries.foldl (fun text entry => replaceAll text (placeholder entry.1) entry.2) value).toList =
      passes (entries.map fun entry => ((placeholder entry.1).toList, entry.2.toList))
        value.toList := by
  induction entries generalizing value with
  | nil => rfl
  | cons entry rest ih => rw [List.foldl_cons, ih, replaceAll, String.toList_ofList]; rfl

theorem containsText_syntax (text : String) :
    (containsText text "\x7bport:" || containsText text "\x7btemp:") = leftover text.toList := by
  unfold containsText
  induction text.toList with
  | nil => decide
  | cons c rest ih =>
    rw [containsChars, containsChars, leftover, ← ih, marked]
    ac_rfl

theorem replacePlaceholders_eq [Toolchain] (hplatform : Toolchain.platform = .unix) (value : String)
    (ports tempDirectories : BTreeMap String) :
    replacePlaceholders value ports tempDirectories =
      if leftover (passes (leaseBindings ports tempDirectories) value.toList) then
        .error (.usage ("argument contains an unknown or unterminated lease placeholder: " ++ value))
      else .ok (String.ofList (passes (leaseBindings ports tempDirectories) value.toList)) := by
  have hpasses : passes (leaseBindings ports tempDirectories) value.toList =
      (tempDirectories.foldl (fun text entry => replaceAll text (tempPlaceholder entry.1) entry.2)
        (ports.foldl (fun text entry => replaceAll text (portPlaceholder entry.1) entry.2)
          value)).toList := by
    rw [foldl_replaceAll, foldl_replaceAll, leaseBindings, passes, List.foldl_append]
    rfl
  simp only [replacePlaceholders, hplatform, reduceCtorEq, false_and, if_false, containsText_syntax,
    hpasses, String.ofList_toList]

/-! ## Simultaneous substitution -/

theorem portPlaceholder_toList (name : String) :
    (portPlaceholder name).toList = '{' :: ("port:".toList ++ name.toList ++ ['}']) := by
  simp [portPlaceholder, String.toList_append]

theorem tempPlaceholder_toList (name : String) :
    (tempPlaceholder name).toList = '{' :: ("temp:".toList ++ name.toList ++ ['}']) := by
  simp [tempPlaceholder, String.toList_append]

theorem not_mem_of_validName {name : String} {kind : List Char} {brace : Char} (h : validName name)
    (hbrace : ¬ NameChar brace) (hkind : brace ∉ kind) : brace ∉ kind ++ name.toList :=
  fun hmem => (List.mem_append.mp hmem).elim hkind fun hname =>
    hbrace (nameChar_of_validName h brace hname)

/-- The map of the names of a kind to the values of their leases. -/
def resolved (names : List String) (value : String → String) : BTreeMap String :=
  .ofList (names.map fun name => (name, value name))

variable (value : String → String) in
theorem resolved_keys [Toolchain] {names : List String} (h : validateNames names = .ok ()) :
    (resolved names value).keys.Nodup ∧ ∀ name ∈ (resolved names value).keys, validName name := by
  refine ⟨(BTreeMap.sorted_ofList _).imp ne_of_lt, fun name hname => ?_⟩
  have hname := BTreeMap.mem_keys_ofList.mp hname
  rw [List.map_map] at hname
  exact (validNames_of_validateNames h).1 name (by simpa using hname)

theorem leaseBindings_ok [Toolchain] {portNames tempNames : List String}
    {port path : String → String}
    (hports : validateNames portNames = .ok ()) (htemps : validateNames tempNames = .ok ()) :
    Bindings (leaseBindings (resolved portNames port) (resolved tempNames path)) := by
  have ⟨hportKeys, hportValid⟩ := resolved_keys port hports
  have ⟨htempKeys, htempValid⟩ := resolved_keys path htemps
  constructor
  · intro b hb
    rcases List.mem_append.mp hb with hb | hb
    · obtain ⟨entry, hentry, rfl⟩ := List.mem_map.mp hb
      have hvalid := hportValid entry.1 (List.mem_map_of_mem hentry)
      exact ⟨"port:".toList ++ entry.1.toList, portPlaceholder_toList _,
        not_mem_of_validName hvalid (by decide) (by decide),
        not_mem_of_validName hvalid (by decide) (by decide)⟩
    · obtain ⟨entry, hentry, rfl⟩ := List.mem_map.mp hb
      have hvalid := htempValid entry.1 (List.mem_map_of_mem hentry)
      exact ⟨"temp:".toList ++ entry.1.toList, tempPlaceholder_toList _,
        not_mem_of_validName hvalid (by decide) (by decide),
        not_mem_of_validName hvalid (by decide) (by decide)⟩
  · have hport : Function.Injective fun name => (portPlaceholder name).toList := by
      intro name name' heq
      simpa [portPlaceholder_toList, String.toList_inj] using heq
    have htemp : Function.Injective fun name => (tempPlaceholder name).toList := by
      intro name name' heq
      simpa [tempPlaceholder_toList, String.toList_inj] using heq
    have hmap : (leaseBindings (resolved portNames port) (resolved tempNames path)).map Prod.fst =
        (resolved portNames port).keys.map (fun name => (portPlaceholder name).toList) ++
          (resolved tempNames path).keys.map fun name => (tempPlaceholder name).toList := by
      simp only [leaseBindings, BTreeMap.keys, List.map_append, List.map_map]
      rfl
    rw [hmap, List.nodup_append]
    refine ⟨hportKeys.map hport, htempKeys.map htemp, fun p hp t ht => ?_⟩
    obtain ⟨name, -, rfl⟩ := List.mem_map.mp hp
    obtain ⟨name', -, rfl⟩ := List.mem_map.mp ht
    simp [portPlaceholder_toList, tempPlaceholder_toList]
  · intro b hb t hpre
    rw [marked, Bool.or_eq_true, List.isPrefixOf_iff_prefix, List.isPrefixOf_iff_prefix]
    refine (List.mem_append.mp hb).imp (fun hb => ?_) fun hb => ?_
    · obtain ⟨entry, -, rfl⟩ := List.mem_map.mp hb
      refine List.IsPrefix.trans ?_ hpre
      simp only [portPlaceholder, String.toList_append, List.append_assoc]
      exact List.prefix_append _ _
    · obtain ⟨entry, -, rfl⟩ := List.mem_map.mp hb
      refine List.IsPrefix.trans ?_ hpre
      simp only [tempPlaceholder, String.toList_append, List.append_assoc]
      exact List.prefix_append _ _

/-- The argument with each placeholder of a lease replaced by the value of the
    lease, or an error if other placeholder syntax is in it. -/
def substituted (bindings : List Binding) (value : String) : Except AppError String :=
  if malformed bindings value.toList then
    .error (.usage ("argument contains an unknown or unterminated lease placeholder: " ++ value))
  else .ok (String.ofList (expand bindings bindings value.toList))

theorem validNames_of_validateRequests [Toolchain] {portNames tempNames : List String}
    {requests : LeaseRequests} (h : validateRequests portNames tempNames = .ok requests) :
    validateNames portNames = .ok () ∧ validateNames tempNames = .ok () := by
  simp only [validateRequests, bind, Except.bind, throw, throwThe, MonadExceptOf.throw] at h
  split at h
  · cases h
  split at h
  · cases h
  rename_i hports
  split at h
  · cases h
  rename_i htemps
  exact ⟨hports, htemps⟩

theorem placeholders_simultaneous [Toolchain] (hplatform : Toolchain.platform = .unix)
    {portNames tempNames : List String} {requests : LeaseRequests}
    (hrequests : validateRequests portNames tempNames = .ok requests)
    (port : String → Nat) (path : String → String) (value : String) :
    let ports := resolved portNames fun name => toString (port name)
    let temps := resolved tempNames path
    let bindings := leaseBindings ports temps
    (Inert bindings value.toList →
      replacePlaceholders value ports temps = substituted bindings value) ∧
    (malformed bindings value.toList = false →
      replacePlaceholders value ports temps = substituted bindings value →
      Inert bindings value.toList) := by
  intro ports temps bindings
  have ⟨hports, htemps⟩ := validNames_of_validateRequests hrequests
  have hB : Bindings bindings := leaseBindings_ok hports htemps
  rw [replacePlaceholders_eq hplatform, substituted]
  constructor
  · intro hinert
    rw [passes_of_inert hB hinert]
    by_cases hmalformed : malformed bindings value.toList
    · rw [if_pos (leftover_expand hB hmalformed), if_pos hmalformed]
    · rw [Inert, if_neg hmalformed] at hinert
      rw [if_neg (ne_true_of_eq_false hinert), if_neg hmalformed]
  · intro hwell hsame
    have hwell := ne_true_of_eq_false hwell
    rw [if_neg hwell] at hsame
    rw [Inert, if_neg hwell]
    split at hsame
    · cases hsame
    · rename_i hclean
      have hresult : passes bindings value.toList = expand bindings bindings value.toList :=
        String.ofList_injective (Except.ok.inj hsame)
      rw [← hresult]
      exact eq_false_of_ne_true hclean

end Procherd

namespace Procherd.Reference

theorem placeholders_simultaneous_inert :
    replacePlaceholders "127.0.0.1:\x7bport:web\x7d:\x7btemp:build\x7d"
        (resolved ["web"] fun _ => toString 43123) (resolved ["build"] fun _ => "/tmp/build") =
      .ok "127.0.0.1:43123:/tmp/build" := by
  have hrequests : validateRequests ["web"] ["build"] =
      .ok { portNames := ["web"], tempDirectoryNames := ["build"] } := rfl
  have hsame := placeholders_simultaneous rfl hrequests (fun _ => 43123) (fun _ => "/tmp/build")
    "127.0.0.1:\x7bport:web\x7d:\x7btemp:build\x7d"
  refine (hsame.1 ?_).trans rfl
  rw [Inert, if_neg (by decide +kernel)]
  decide +kernel

/-- The port of `b` completes the placeholder of `z1`, and the path of `w` looks
    like a placeholder. -/
theorem placeholders_rescanned :
    (let ports := resolved ["b", "z1"] fun name => toString (if name = "b" then 1 else 2)
      let value := "\x7bport:z\x7bport:b\x7d\x7d"
      (validateRequests ["b", "z1"] []).toBool ∧ replacePlaceholders value ports [] = .ok "2" ∧
        malformed (leaseBindings ports []) value.toList) ∧
    (let temps := resolved ["w"] fun _ => "/\x7btemp:old\x7d/w"
      let value := "\x7btemp:w\x7d"
      (validateRequests [] ["w"]).toBool ∧ (replacePlaceholders value [] temps).toBool = false ∧
        substituted (leaseBindings [] temps) value = .ok "/\x7btemp:old\x7d/w") := by
  refine ⟨⟨by rfl, by rfl, by decide +kernel⟩, by rfl, by rfl, by rfl⟩

end Procherd.Reference
