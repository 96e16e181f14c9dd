import Vcass.Upgrade.Merge

/-!
# The decision about one option

`__encode_changes` turns the three texts of an option into a vector of changes, a strategy turns the vector into an
action, and `__choose_value` turns the action into the text that is stored. Taken together, the user's text is kept
if it was changed, and the new default is taken otherwise.

An option that the user has removed is reported, if its default is the same in both releases. If it is not, the
encoder has no vector for it, and what it returns instead makes the strategies raise an exception that the script
does not catch. So does the warning about a new default that is not ASCII.
-/

namespace Vcass.Upgrade

/-- The text that is chosen for an option, or what is raised instead. -/
def choose (mode : UpdateMode) (answer : Answer) (typed : Option String) (v : Values) :
    Except Raised (Option String) :=
  (run mode v answer (encodeChanges v)).bind fun action ↦ chooseValue action v typed

/-- What the full automatic mode is to choose. -/
structure Decides (v : Values) (r : Except Raised (Option String)) : Prop where
  changed : ∀ t, v.user = some t → v.old ≠ v.user → r = .ok (some t)
  unchanged : v.user = v.old → ∀ t, v.new = some t → r = .ok (some t)
  gone : v.user = v.old → v.user ≠ none → v.new = none → r = .ok (some "")
  removed : v.user = none → v.old ≠ none → ∃ e, r = .error e ∧ e ≠ .uncaught

/-- An answer may raise an exception, so what no answer changes is chosen without asking. -/
structure MergesRight (v : Values) : Prop where
  full : ∀ answer typed, Decides v (choose .fullAuto answer typed v)
  semi : ∀ answer answer' typed, v.user = v.old ∨ v.new = v.old →
    choose .semiAuto answer typed v = choose .fullAuto answer' typed v

/-- An option that the user has removed has the same default in both releases, and one that was changed by the user
and by the release can be printed. -/
structure Encodable (v : Values) : Prop where
  removed : v.user = none → v.old ≠ none → v.new = v.old
  changed : v.user ≠ none → v.old ≠ v.user → v.new ≠ v.old → printable v.new = true

theorem mergeOption_eq (w : World) (mode : UpdateMode) (debug : Bool) (i : ℕ) (job : Job) (file : Config.Ptree) :
    mergeOption w mode debug i job file =
      match w.stop i with
      | some code => ⟨some code, file⟩
      | none =>
        match choose mode (w.answer i) (w.typed i) job.values with
        | .error e => ⟨some e.exitCode, file⟩
        | .ok value => runVcactl w debug i job value file := by
  rw [mergeOption, choose]
  cases w.stop i with
  | some code => rfl
  | none => cases run mode job.values (w.answer i) (encodeChanges job.values) <;> rfl

/-! ## The encoder -/

section Encode

variable {v : Values}

theorem encodeChanges_unchanged (h : v.user = v.old) : encodeChanges v =
    if v.user = v.new then some (.d, .d, .d) else if v.new ≠ none then some (.d, .d, .nd) else some (.d, .d, .del) := by
  rw [encodeChanges, if_pos h.symm]
  split_ifs with heq hnew hnone hnone
  · rfl
  · rfl
  · exact absurd hnew.2 hnone
  · exact absurd ⟨heq, hnone⟩ hnew
  · rfl

theorem encodeChanges_changed (hold : v.old ≠ v.user) (huser : v.user ≠ none) : encodeChanges v =
    if v.new = v.old then some (.d, .m, .d) else if v.new = none then some (.d, .m, .del) else some (.d, .m, .nd) := by
  rw [encodeChanges, if_neg hold, if_pos ⟨hold, huser⟩]

theorem encodeChanges_removed (huser : v.user = none) (hold : v.old ≠ none) :
    encodeChanges v = if v.new = v.old then some (.d, .del, .d) else none := by
  have hne : v.old ≠ v.user := huser ▸ hold
  rw [encodeChanges, if_neg hne, if_neg fun h ↦ h.2 huser, if_neg fun h ↦ hold h.1]
  by_cases heq : v.new = v.old
  · rw [if_pos ⟨heq.symm, huser⟩, if_pos heq]
  · rw [if_neg fun h ↦ heq h.1.symm, if_neg fun h ↦ hold h.1, if_neg fun h ↦ hold h.1, if_neg fun h ↦ hold h.1,
      if_neg heq]

end Encode

/-! ## The choices -/

section Choose

variable {v : Values} {answer : Answer} {typed : Option String} {mode : UpdateMode}

/-- As long as the user has not changed an option, both automatic modes take the new default. -/
theorem choose_unchanged (hmode : mode = .fullAuto ∨ mode = .semiAuto) (h : v.user = v.old) :
    choose mode answer typed v =
      .ok (if v.user = v.new then v.old else if v.new ≠ none then v.new else some "") := by
  rw [choose, encodeChanges_unchanged h]
  rcases hmode with rfl | rfl
  · split_ifs <;> rfl
  · split_ifs <;> rfl

theorem choose_fullAuto_changed (hold : v.old ≠ v.user) (huser : v.user ≠ none) :
    choose .fullAuto answer typed v =
      if v.new ≠ v.old ∧ printable v.new = false then .error .uncaught else .ok v.user := by
  rw [choose, encodeChanges_changed hold huser]
  by_cases heq : v.new = v.old
  · rw [if_pos heq, if_neg fun h ↦ h.1 heq]
    rfl
  · rw [if_neg heq]
    by_cases hnone : v.new = none
    · have hprint : printable v.new = true := hnone ▸ rfl
      rw [if_pos hnone, hprint, if_neg fun h ↦ Bool.noConfusion h.2]
      rfl
    · -- the only branch with a warning
      rw [if_neg hnone]
      change Except.bind (if printable v.new = true then _ else _) _ = _
      cases hprint : printable v.new with
      | false => rw [if_neg Bool.false_ne_true, if_pos ⟨heq, rfl⟩, Except.bind]
      | true =>
        rw [if_pos rfl, if_neg fun h ↦ Bool.noConfusion h.2]
        rfl

theorem choose_removed (hmode : mode = .fullAuto ∨ mode = .semiAuto) (huser : v.user = none) (hold : v.old ≠ none) :
    choose mode answer typed v = .error (if v.new = v.old then .badXmlConfiguration else .uncaught) := by
  rw [choose, encodeChanges_removed huser hold]
  rcases hmode with rfl | rfl
  · split_ifs <;> rfl
  · split_ifs <;> rfl

/-- The default is the same in both releases: the user's text is kept without a warning. -/
theorem choose_same_default (hmode : mode = .fullAuto ∨ mode = .semiAuto) (hnew : v.new = v.old)
    (hold : v.old ≠ v.user) (huser : v.user ≠ none) : choose mode answer typed v = .ok v.user := by
  rw [choose, encodeChanges_changed hold huser, if_pos hnew]
  rcases hmode with rfl | rfl <;> rfl

theorem choose_semiAuto_eq (answer answer' : Answer) (typed : Option String) (h : v.user = v.old ∨ v.new = v.old) :
    choose .semiAuto answer typed v = choose .fullAuto answer' typed v := by
  by_cases heq : v.user = v.old
  · rw [choose_unchanged (.inr rfl) heq, choose_unchanged (.inl rfl) heq]
  have hnew := h.resolve_left heq
  by_cases huser : v.user = none
  · have hold : v.old ≠ none := fun hold ↦ heq (huser.trans hold.symm)
    rw [choose_removed (.inr rfl) huser hold, choose_removed (.inl rfl) huser hold]
  · have hold : v.old ≠ v.user := Ne.symm heq
    rw [choose_same_default (.inr rfl) hnew hold huser, choose_same_default (.inl rfl) hnew hold huser]

theorem decides_of_encodable (h : Encodable v) : Decides v (choose .fullAuto answer typed v) where
  changed t ht hold := by
    have huser : v.user ≠ none := by simp [ht]
    rw [choose_fullAuto_changed hold huser, if_neg, ht]
    rintro ⟨hnew, hprint⟩
    rw [h.changed huser hold hnew] at hprint
    exact Bool.noConfusion hprint
  unchanged heq t ht := by
    rw [choose_unchanged (.inl rfl) heq]
    split_ifs with hnew hnone
    · rw [← heq, hnew, ht]
    · rw [ht]
    · exact absurd ht (by simp [not_not.mp hnone])
  gone heq huser hnew := by
    rw [choose_unchanged (.inl rfl) heq, hnew, if_neg huser, if_neg (not_not_intro rfl)]
  removed huser hold := by
    rw [choose_removed (.inl rfl) huser hold, if_pos (h.removed huser hold)]
    exact ⟨_, rfl, nofun⟩

theorem encodable_of_decides (h : Decides v (choose .fullAuto answer typed v)) : Encodable v where
  removed huser hold := by
    obtain ⟨e, he, hne⟩ := h.removed huser hold
    rw [choose_removed (.inl rfl) huser hold] at he
    by_contra hnew
    rw [if_neg hnew] at he
    exact hne (Except.error.inj he).symm
  changed huser hold hnew := by
    obtain ⟨t, ht⟩ := Option.ne_none_iff_exists'.mp huser
    have hok := h.changed t ht hold
    rw [choose_fullAuto_changed hold huser] at hok
    by_contra hprint
    rw [if_pos ⟨hnew, Bool.eq_false_iff.mpr hprint⟩] at hok
    cases hok

end Choose

/-- **The decision about an option is right if and only if there is a vector for it and its warning can be printed.** -/
theorem mergesRight_iff (v : Values) : MergesRight v ↔ Encodable v :=
  ⟨fun h ↦ encodable_of_decides (h.full .other none),
    fun h ↦ ⟨fun _ _ ↦ decides_of_encodable h, fun answer answer' typed ↦ choose_semiAuto_eq answer answer' typed⟩⟩

/-- The user has removed an option, and its default has changed: what the encoder returns has no items. -/
theorem removed_option_uncaught :
    choose .fullAuto .other none ⟨some "0", none, some "1"⟩ = .error .uncaught ∧
      ¬ MergesRight ⟨some "0", none, some "1"⟩ := by
  have hrun : choose .fullAuto .other none ⟨some "0", none, some "1"⟩ = .error .uncaught := by decide
  refine ⟨hrun, fun h ↦ ?_⟩
  obtain ⟨e, he, hne⟩ := (h.full .other none).removed rfl (by decide)
  rw [hrun] at he
  exact hne (Except.error.inj he).symm

end Vcass.Upgrade
