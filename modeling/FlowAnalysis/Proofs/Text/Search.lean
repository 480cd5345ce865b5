import FlowAnalysis.Proofs.Text.Match

/-!
# A search misses nothing

A walk tries one alternative after the other, and the longest or the shortest run first, but
it gives up only when none is left.  So when a pattern describes a piece of text that starts
here, and the walk can go on behind it, a walk from here finds something (`isSome_walk`), if
not always that piece.  Hence a search fails exactly when the pattern describes no piece of
the text (`first?_eq_none_iff`).
-/

namespace FlowAnalysis.Text.Pattern

/-! ### Single steps -/

section

variable {p q : Place} {cs : List Char} {c : Char} {gs : List (Nat × String)} {cls : Char → Bool}

theorem Passes.eq_of_nil (h : Passes p [] [] q) : q = p := by
  obtain ⟨before, after, groups⟩ := p
  obtain ⟨before', after', groups'⟩ := q
  obtain ⟨ha, hb, hg⟩ := h
  simp_all

/-- The place after the first character of a piece. -/
theorem stepOver_of_passes (hc : cls c = true) (h : Passes p (c :: cs) gs q) :
    ∃ t, stepOver cls p = some t ∧ Passes t cs gs q := by
  obtain ⟨before, after, groups⟩ := p
  have hafter : after = c :: (cs ++ q.after) := h.after
  subst hafter
  refine ⟨⟨c :: before, cs ++ q.after, groups⟩, if_pos hc, rfl, ?_, h.groups⟩
  rw [h.before]
  simp

theorem skip_of_passes (h : Passes p cs [] q) : skip cs p = some q := by
  induction cs generalizing p with
  | nil => rw [skip, h.eq_of_nil]
  | cons c cs ih =>
    obtain ⟨before, after, groups⟩ := p
    have hafter : after = c :: (cs ++ q.after) := h.after
    subst hafter
    simp only [skip, if_true]
    refine ih ⟨rfl, ?_, h.groups⟩
    rw [h.before]
    simp

end

/-- A run that can be followed is found, or another one is. -/
theorem isSome_runs {greedy : Bool} {cls : Char → Bool} {k : Place → Option Place} {p r : Place}
    {least fuel : Nat} (hfuel : p.after.length < fuel) (h : RunLeads cls k least p r) :
    (runs greedy cls k fuel least p).isSome := by
  induction fuel generalizing least p with
  | zero => exact absurd hfuel (Nat.not_lt_zero _)
  | succ fuel ih =>
    obtain ⟨piece, q, hleast, hall, hpass, hk⟩ := h
    cases piece with
    | nil =>
      obtain rfl : least = 0 := Nat.le_zero.1 hleast
      rw [hpass.eq_of_nil] at hk
      rw [runs]
      repeat' split
      all_goals simp_all
    | cons c cs =>
      obtain ⟨hc, hcs⟩ := List.forall_mem_cons.1 hall
      obtain ⟨t, ht, hrest⟩ := stepOver_of_passes hc hpass
      have hshort : t.after.length < fuel := by
        obtain ⟨d, -, hone⟩ := passes_of_stepOver ht
        rw [hone.after] at hfuel
        simpa using hfuel
      cases least with
      | succ least =>
        rw [runs, ht]
        exact ih hshort ⟨cs, q, Nat.le_of_succ_le_succ hleast, hcs, hrest, hk⟩
      | zero =>
        have hrun := ih hshort ⟨cs, q, Nat.zero_le _, hcs, hrest, hk⟩
        obtain ⟨u, hu⟩ := Option.isSome_iff_exists.1 hrun
        rw [runs, ht]
        repeat' split
        all_goals simp_all

/-! ### Walks -/

/-- **A walk finds something when the pattern describes a piece from here on and the
walk can go on behind it.** -/
theorem isSome_walk {a : Pattern} {p q : Place} {piece : List Char} {gs : List (Nat × String)}
    {k : Place → Option Place} (h : Matches a p.before piece q.after gs)
    (hpass : Passes p piece gs q) (hk : (k q).isSome) : (walk a p k).isSome := by
  induction a generalizing p q piece gs k with
  | exact cs =>
    obtain ⟨rfl, rfl⟩ := h
    rw [walk, skip_of_passes hpass]
    exact hk
  | one cls =>
    obtain ⟨⟨c, rfl, hc⟩, rfl⟩ := h
    obtain ⟨t, ht, hrest⟩ := stepOver_of_passes hc hpass
    rw [walk, ht, ← hrest.eq_of_nil]
    exact hk
  | run greedy least cls =>
    obtain ⟨hleast, hall, rfl⟩ := h
    obtain ⟨r, hr⟩ := Option.isSome_iff_exists.1 hk
    exact isSome_runs (Nat.lt_succ_self _) ⟨piece, q, hleast, hall, hpass, hr⟩
  | seq a b iha ihb =>
    obtain ⟨x, y, hs, ks, rfl, rfl, ha, hb⟩ := h
    -- The place between the two parts.
    have hsecond : Passes ⟨x.reverse ++ p.before, y ++ q.after, hs ++ p.groups⟩ y ks q := by
      refine ⟨rfl, ?_, ?_⟩
      · rw [hpass.before, List.reverse_append, List.append_assoc]
      · rw [hpass.groups, List.append_assoc]
    have hfirst : Passes p x hs ⟨x.reverse ++ p.before, y ++ q.after, hs ++ p.groups⟩ := by
      refine ⟨?_, rfl, rfl⟩
      rw [hpass.after, List.append_assoc]
    exact iha ha hfirst (ihb hb hsecond hk)
  | either a b iha ihb =>
    rw [walk]
    split
    · rfl
    · next hnone =>
      rcases h with ha | hb
      · have hsome := iha ha hpass hk
        rw [hnone] at hsome
        cases hsome
      · exact ihb hb hpass hk
  | group i a ih =>
    obtain ⟨hs, rfl, ha⟩ := h
    have hinner : Passes p piece hs ⟨q.before, q.after, hs ++ p.groups⟩ :=
      ⟨hpass.after, hpass.before, rfl⟩
    refine ih (q := ⟨q.before, q.after, hs ++ p.groups⟩) ha hinner ?_
    have hpiece : (q.before.take (q.before.length - p.before.length)).reverse = piece := by
      rw [hpass.before, List.length_append, Nat.add_sub_cancel, List.take_left,
        List.reverse_reverse]
    dsimp only
    rw [hpiece, ← List.cons_append, ← hpass.groups]
    exact hk
  | boundary =>
    obtain ⟨hb, rfl, rfl⟩ := h
    obtain rfl := hpass.eq_of_nil
    rw [walk, if_pos (show isBoundary q = true from hb)]
    exact hk
  | start =>
    obtain ⟨hb, rfl, rfl⟩ := h
    obtain rfl := hpass.eq_of_nil
    rw [walk, if_pos (List.isEmpty_iff.2 hb)]
    exact hk
  | stop =>
    obtain ⟨hb, rfl, rfl⟩ := h
    obtain rfl := hpass.eq_of_nil
    rw [walk, if_pos (List.isEmpty_iff.2 hb)]
    exact hk

/-! ### Searches -/

theorem isSome_searchFrom {a : Pattern} {fuel : Nat} {p : Place} (hfuel : p.after.length < fuel)
    {skipped piece after : List Char} {gs : List (Nat × String)}
    (hsplit : p.after = skipped ++ (piece ++ after))
    (h : Matches a (skipped.reverse ++ p.before) piece after gs) :
    (searchFrom a fuel p).isSome := by
  induction fuel generalizing p skipped with
  | zero => exact absurd hfuel (Nat.not_lt_zero _)
  | succ fuel ih =>
    rw [searchFrom]
    split
    · rfl
    · next hnone =>
      obtain ⟨before, after', groups⟩ := p
      obtain rfl : after' = skipped ++ (piece ++ after) := hsplit
      cases skipped with
      | nil =>
        -- The piece starts here, so the walk would have found something.
        have hpass : Passes ⟨before, piece ++ after, []⟩ piece gs
            ⟨piece.reverse ++ before, after, gs ++ []⟩ :=
          ⟨rfl, rfl, rfl⟩
        have hsome : (matchAt a ⟨before, [] ++ (piece ++ after), groups⟩).isSome :=
          isSome_walk (q := ⟨piece.reverse ++ before, after, gs ++ []⟩) h hpass rfl
        rw [hnone] at hsome
        cases hsome
      | cons c skipped =>
        have hm : Matches a (skipped.reverse ++ (c :: before)) piece after gs := by simpa using h
        exact ih (by simpa using hfuel) rfl hm

/-- **A search fails exactly when the pattern describes no piece of the text.** -/
theorem first?_eq_none_iff {a : Pattern} {s : String} :
    a.first? s = none ↔
      ∀ before piece after gs, s.toList = before ++ (piece ++ after) →
      ¬ Matches a before.reverse piece after gs := by
  constructor
  · intro hnone before piece after gs hsplit hm
    have hsome : (searchFrom a (s.toList.length + 1) ⟨[], s.toList, []⟩).isSome :=
      isSome_searchFrom (Nat.lt_succ_self _) hsplit (by simpa using hm)
    rw [Option.map_eq_none_iff.1 hnone] at hsome
    cases hsome
  · intro hall
    cases hfirst : a.first? s with
    | none => rfl
    | some gs =>
      obtain ⟨before, piece, after, hsplit, hm⟩ := exists_matches_of_first? hfirst
      refine absurd ?_ (hall before.reverse piece after gs hsplit)
      rwa [List.reverse_reverse]

end FlowAnalysis.Text.Pattern
