import Agenomic.Connector.Outcomes

/-!
# Settlements are exact

What the settlements of a session rely on: the outcome kept for an open action is the last one
that was recorded for it, and of all the entries that repeat one outcome at most one is being
reported, which for an open action is the one kept (`Sound`). A settlement repeats an outcome
only once its report is over, and says `unknown` only where nothing was recorded (`Delivers`).

**`settlements_exact_run`**: so settlements are exact, whatever happens in between.
-/

namespace Agenomic.Connector.OutcomeBook

open Lib

variable {b b' b₀ : OutcomeBook}

/-! ## Entries -/

theorem getElem?_concat_eq_some {α : Type} {l : List α} {a x : α} {i : Nat} :
    (l ++ [a])[i]? = some x ↔ l[i]? = some x ∨ i = l.length ∧ x = a := by
  rcases Nat.lt_trichotomy i l.length with h | rfl | h
  · rw [List.getElem?_append_left h]
    refine ⟨.inl, fun hor => hor.elim (fun h => h) fun heq => ?_⟩
    omega
  · rw [List.getElem?_concat_length, List.getElem?_eq_none (Nat.le_refl _)]
    simp [eq_comm]
  · rw [List.getElem?_eq_none (by rw [List.length_append, List.length_singleton]; omega),
      List.getElem?_eq_none (Nat.le_of_lt h)]
    simp [Nat.ne_of_gt h]

/-- The last entry that was recorded for an action. -/
def LastRecorded (b : OutcomeBook) (id : String) (e : Nat) : Prop :=
  (∃ x, b.entries[e]? = some x ∧ x.actionId = id)
    ∧ ∀ (e' : Nat) (x : OutcomeEntry), b.entries[e']? = some x → x.actionId = id → e' ≤ e

/-- The report of an entry has not returned. -/
def InFlight (b : OutcomeBook) (e : Nat) : Prop := ∃ s ∈ b.sends, s.entry = some e

/-- The entry that an entry repeats. -/
def origin (b : OutcomeBook) (e : Nat) : Option Nat := (b.entries[e]?).map (·.origin)

/-- No outcome is reported twice at a time, be it by entries that repeat each other. -/
def SingleFlight (b : OutcomeBook) : Prop :=
  (b.sends.filterMap OutcomeSend.entry).Pairwise fun e e' => b.origin e ≠ b.origin e'

structure Sound (b : OutcomeBook) : Prop where
  kept : ∀ id e, b.openActions.get id = some (some e) → b.LastRecorded id e
  origin_le : ∀ (e : Nat) (x : OutcomeEntry), b.entries[e]? = some x → x.origin ≤ e
  /-- Entries that repeat each other are of one action. -/
  owner : ∀ (e : Nat) (x : OutcomeEntry) (e' : Nat) (x' : OutcomeEntry), b.entries[e]? = some x →
    b.entries[e']? = some x' → x.origin = x'.origin → x.actionId = x'.actionId
  /-- At most one of them is being reported. -/
  alone : ∀ (e : Nat) (x : OutcomeEntry) (e' : Nat) (x' : OutcomeEntry), b.entries[e]? = some x →
    b.entries[e']? = some x' → x.origin = x'.origin → x.sending = true → x'.sending = true → e = e'
  /-- If one of them is kept, it is the one. -/
  latest : ∀ (id : String) (e : Nat) (x : OutcomeEntry) (e' : Nat) (x' : OutcomeEntry),
    b.openActions.get id = some (some e) → b.entries[e]? = some x → b.entries[e']? = some x' →
      x.origin = x'.origin → x'.sending = true → e' = e
  sends : ∀ s ∈ b.sends, ∀ e, s.entry = some e →
    ∃ x, b.entries[e]? = some x ∧ x.sending = true ∧ x.actionId = s.pending.actionId
  distinct : (b.sends.filterMap OutcomeSend.entry).Nodup

theorem sound_new (id : String) : Sound (new id) where
  kept := by intro id e h; cases h
  origin_le := by intro e x h; cases h
  owner := by intro e x e' x' h; cases h
  alone := by intro e x e' x' h; cases h
  latest := by intro id e x e' x' h; cases h
  sends := by intro s h; cases h
  distinct := List.nodup_nil

/-- Only the open actions, the entries and the sends matter. -/
theorem Sound.of_eq (h : Sound b) (hopen : b'.openActions = b.openActions)
    (hentries : b'.entries = b.entries) (hsends : b'.sends = b.sends) : Sound b' := by
  obtain ⟨kept, origin_le, owner, alone, latest, sends, distinct⟩ := h
  refine ⟨?_, ?_, ?_, ?_, ?_, ?_, ?_⟩
  · unfold LastRecorded
    rw [hopen, hentries]
    exact kept
  · rw [hentries]
    exact origin_le
  · rw [hentries]
    exact owner
  · rw [hentries]
    exact alone
  · rw [hopen, hentries]
    exact latest
  · rw [hsends, hentries]
    exact sends
  · rw [hsends]
    exact distinct

theorem Sound.sending_of_inFlight (h : Sound b) {e : Nat} (he : b.InFlight e) :
    b.sending e = true := by
  obtain ⟨s, hs, hentry⟩ := he
  obtain ⟨x, hx, hsending, -⟩ := h.sends s hs e hentry
  unfold sending
  rw [hx]
  exact hsending

theorem Sound.singleFlight (h : Sound b) : b.SingleFlight := by
  refine h.distinct.imp_of_mem fun {e e'} he he' hne horigin => ?_
  obtain ⟨s, hs, hentry⟩ := List.mem_filterMap.mp he
  obtain ⟨s', hs', hentry'⟩ := List.mem_filterMap.mp he'
  obtain ⟨x, hx, hsending, -⟩ := h.sends s hs e hentry
  obtain ⟨x', hx', hsending', -⟩ := h.sends s' hs' e' hentry'
  unfold origin at horigin
  rw [hx, hx'] at horigin
  exact hne (h.alone e x e' x' hx hx' (Option.some.inj horigin) hsending hsending')

/-! ## One operation at a time -/

/-- What a new entry for an action repeats: nothing, or the entry that is kept for it and not
being reported. -/
def Repeatable (b : OutcomeBook) (id : String) (repeats : Option Nat) : Prop :=
  ∀ o, repeats = some o → ∃ e x, b.openActions.get id = some (some e) ∧ b.entries[e]? = some x
    ∧ x.sending = false ∧ x.origin = o

theorem sound_authorized (h : Sound b) (v : Verdict) : Sound (b.authorized v) := by
  unfold authorized
  cases v.admits with
  | none => exact h
  | some actionId =>
      dsimp only
      by_cases hopen : b.openActions.has actionId = true
      · rw [if_pos hopen]
        exact h
      · rw [if_neg hopen]
        have hget : ∀ id e, (b.openActions.set actionId none).get id = some (some e) →
            b.openActions.get id = some (some e) := by
          intro id e hid
          rw [InsertionMap.get_set] at hid
          by_cases heq : id = actionId
          · rw [if_pos heq] at hid
            cases hid
          · rwa [if_neg heq] at hid
        exact
          { kept := fun id e hid => h.kept id e (hget id e hid)
            origin_le := h.origin_le
            owner := h.owner
            alone := h.alone
            latest := fun id e x e' x' hid => h.latest id e x e' x' (hget id e hid)
            sends := h.sends
            distinct := h.distinct }

/-- A send that reports no entry. -/
theorem sound_send_none (h : Sound b) (actionId : String) (outcome : ReportKind)
    (detail : OutcomeDetail) : Sound (b.send none actionId outcome detail) where
  kept := h.kept
  origin_le := h.origin_le
  owner := h.owner
  alone := h.alone
  latest := h.latest
  sends := by
    intro s hs e he
    rcases List.mem_append.mp hs with hs | hs
    · exact h.sends s hs e he
    · rw [List.mem_singleton.mp hs] at he
      cases he
  distinct := by
    show ((b.sends ++ [_]).filterMap OutcomeSend.entry).Nodup
    rw [List.filterMap_append]
    simpa using h.distinct

/-- The entry that a report makes. -/
def newEntry (b : OutcomeBook) (actionId : String) (outcome : ReportKind) (detail : OutcomeDetail)
    (repeats : Option Nat) : OutcomeEntry :=
  ⟨outcome, detail, true, actionId, repeats.getD b.entries.length⟩

theorem lt_length_of_getElem? {e : Nat} {x : OutcomeEntry} (h : b.entries[e]? = some x) :
    e < b.entries.length := (List.getElem?_eq_some_iff.mp h).1

/-- An older entry with the origin of a new one is of its action, and is not being reported. -/
theorem Sound.repeated (h : Sound b) {actionId : String} {outcome : ReportKind}
    {detail : OutcomeDetail} {repeats : Option Nat} (hrep : b.Repeatable actionId repeats) {e : Nat}
    {x : OutcomeEntry} (hx : b.entries[e]? = some x)
    (horigin : x.origin = (b.newEntry actionId outcome detail repeats).origin) :
    x.actionId = actionId ∧ x.sending = false := by
  cases hrepeats : repeats with
  | none =>
      rw [hrepeats] at horigin
      have hle := h.origin_le e x hx
      have hlt := lt_length_of_getElem? hx
      change x.origin = b.entries.length at horigin
      omega
  | some o =>
      rw [hrepeats] at horigin
      obtain ⟨e₀, x₀, hget, hx₀, hsending, ho⟩ := hrep o hrepeats
      have hsame : x₀.origin = x.origin := ho.trans horigin.symm
      obtain ⟨⟨y, hy, hyid⟩, -⟩ := h.kept actionId e₀ hget
      cases hx₀.symm.trans hy
      refine ⟨(h.owner e₀ x₀ e x hx₀ hx hsame).symm.trans hyid, ?_⟩
      by_contra hnot
      rw [Bool.not_eq_false] at hnot
      have heq := h.latest actionId e₀ x₀ e x hget hx₀ hx hsame hnot
      rw [heq] at hx
      cases hx₀.symm.trans hx
      rw [hsending] at hnot
      cases hnot

/-- What is kept for an action once an entry is. -/
theorem get_set_some {m : InsertionMap String (Option Nat)} {actionId id : String} {n e : Nat}
    (h : (m.set actionId (some n)).get id = some (some e)) :
    id = actionId ∧ e = n ∨ id ≠ actionId ∧ m.get id = some (some e) := by
  rw [InsertionMap.get_set] at h
  by_cases heq : id = actionId
  · rw [if_pos heq] at h
    exact .inl ⟨heq, (Option.some.inj (Option.some.inj h)).symm⟩
  · rw [if_neg heq] at h
    exact .inr ⟨heq, h⟩

theorem sound_record_send (h : Sound b) {actionId : String} {repeats : Option Nat}
    (hrep : b.Repeatable actionId repeats) (outcome : ReportKind) (detail : OutcomeDetail) :
    Sound ((b.record actionId outcome detail repeats).send (some b.entries.length) actionId outcome
      detail) := by
  have hentry : ∀ {e : Nat} {x : OutcomeEntry},
      (b.entries ++ [b.newEntry actionId outcome detail repeats])[e]? = some x →
      b.entries[e]? = some x
        ∨ e = b.entries.length ∧ x = b.newEntry actionId outcome detail repeats :=
    fun hx => getElem?_concat_eq_some.mp hx
  refine ⟨?_, ?_, ?_, ?_, ?_, ?_, ?_⟩
  · intro id e hid
    rcases get_set_some hid with ⟨rfl, rfl⟩ | ⟨hne, hget⟩
    · refine ⟨⟨_, getElem?_concat_eq_some.mpr (.inr ⟨rfl, rfl⟩), rfl⟩, fun e' x hx _ => ?_⟩
      rcases hentry hx with hx | ⟨rfl, -⟩
      · exact Nat.le_of_lt (lt_length_of_getElem? hx)
      · exact Nat.le_refl _
    · obtain ⟨⟨x, hx, hxid⟩, hlast⟩ := h.kept id e hget
      refine ⟨⟨x, getElem?_concat_eq_some.mpr (.inl hx), hxid⟩, fun e' x' hx' hx'id => ?_⟩
      rcases hentry hx' with hx' | ⟨-, rfl⟩
      · exact hlast e' x' hx' hx'id
      · exact absurd hx'id.symm hne
  · intro e x hx
    rcases hentry hx with hx | ⟨rfl, rfl⟩
    · exact h.origin_le e x hx
    · show repeats.getD b.entries.length ≤ b.entries.length
      cases hrepeats : repeats with
      | none => exact Nat.le_refl _
      | some o =>
          obtain ⟨e₀, x₀, -, hx₀, -, ho⟩ := hrep o hrepeats
          have hle := h.origin_le e₀ x₀ hx₀
          have hxlt := lt_length_of_getElem? hx₀
          show o ≤ b.entries.length
          omega
  · intro e x e' x' hx hx' horigin
    rcases hentry hx with hx | ⟨-, rfl⟩
    · rcases hentry hx' with hx' | ⟨-, rfl⟩
      · exact h.owner e x e' x' hx hx' horigin
      · exact (h.repeated hrep hx horigin).1
    · rcases hentry hx' with hx' | ⟨-, rfl⟩
      · exact (h.repeated hrep hx' horigin.symm).1.symm
      · rfl
  · intro e x e' x' hx hx' horigin hsending hsending'
    rcases hentry hx with hx | ⟨he, rfl⟩
    · rcases hentry hx' with hx' | ⟨-, rfl⟩
      · exact h.alone e x e' x' hx hx' horigin hsending hsending'
      · rw [(h.repeated hrep hx horigin).2] at hsending
        cases hsending
    · rcases hentry hx' with hx' | ⟨he', -⟩
      · rw [(h.repeated hrep hx' horigin.symm).2] at hsending'
        cases hsending'
      · exact he.trans he'.symm
  · intro id e x e' x' hid hx hx' horigin hsending'
    rcases get_set_some hid with ⟨rfl, rfl⟩ | ⟨hne, hget⟩
    · rcases hentry hx with hx | ⟨-, rfl⟩
      · exact absurd (lt_length_of_getElem? hx) (Nat.lt_irrefl _)
      · rcases hentry hx' with hx' | ⟨he', -⟩
        · rw [(h.repeated hrep hx' horigin.symm).2] at hsending'
          cases hsending'
        · exact he'
    · obtain ⟨⟨y, hy, hyid⟩, -⟩ := h.kept id e hget
      have hx : b.entries[e]? = some x := by
        rcases hentry hx with hx | ⟨rfl, -⟩
        · exact hx
        · exact absurd (lt_length_of_getElem? hy) (Nat.lt_irrefl _)
      rcases hentry hx' with hx' | ⟨-, rfl⟩
      · exact h.latest id e x e' x' hget hx hx' horigin hsending'
      · cases hx.symm.trans hy
        exact absurd ((hyid.symm.trans (h.repeated hrep hx horigin).1)) hne
  · intro s hs e he
    rcases List.mem_append.mp hs with hs | hs
    · obtain ⟨x, hx, hrest⟩ := h.sends s hs e he
      exact ⟨x, getElem?_concat_eq_some.mpr (.inl hx), hrest⟩
    · rw [List.mem_singleton.mp hs] at he ⊢
      cases he
      exact ⟨_, getElem?_concat_eq_some.mpr (.inr ⟨rfl, rfl⟩), rfl, rfl⟩
  · show ((b.sends ++ [_]).filterMap OutcomeSend.entry).Nodup
    rw [List.filterMap_append]
    refine List.nodup_append.mpr ⟨h.distinct, by simp, fun e he e' he' heq => ?_⟩
    obtain ⟨s, hs, hsentry⟩ := List.mem_filterMap.mp he
    obtain ⟨x, hx, -⟩ := h.sends s hs e hsentry
    have he' : e' = b.entries.length := by simpa using he'
    have hxlt := lt_length_of_getElem? hx
    omega

theorem sound_report (h : Sound b) {actionId : String} {repeats : Option Nat}
    (hrep : b.Repeatable actionId repeats) (outcome : ReportKind) (detail : OutcomeDetail) :
    Sound (b.report actionId outcome detail repeats) := by
  unfold report
  by_cases hempty : actionId = ""
  · rw [if_pos hempty]
    exact h
  · rw [if_neg hempty]
    by_cases hstarted : outcome = .started
    · rw [if_pos hstarted]
      exact sound_send_none h _ _ _
    · rw [if_neg hstarted]
      exact sound_record_send h hrep _ _

/-- An entry once a report has returned: the same, but for its being reported. -/
theorem getElem?_modify_eq_some {e i : Nat} {x : OutcomeEntry}
    (h : (b.entries.modify e fun entry => { entry with sending := false })[i]? = some x) :
    ∃ y, b.entries[i]? = some y ∧ x.actionId = y.actionId ∧ x.origin = y.origin
      ∧ x.sending = (y.sending && decide (i ≠ e)) := by
  rw [List.getElem?_modify] at h
  obtain ⟨y, hy, rfl⟩ := Option.map_eq_some_iff.mp h
  refine ⟨y, hy, ?_⟩
  by_cases hi : e = i
  · rw [if_pos hi]
    simp [hi]
  · rw [if_neg hi]
    simp [Ne.symm hi]

theorem modify_getElem?_of_ne {e i : Nat} {x : OutcomeEntry} (h : b.entries[i]? = some x)
    (hne : i ≠ e) :
    (b.entries.modify e fun entry => { entry with sending := false })[i]? = some x := by
  rw [List.getElem?_modify, h]
  exact congrArg some (if_neg (Ne.symm hne))

/-- The report of an entry returns that no other send was made for. -/
theorem sound_entrySent (h : Sound b) {e : Nat} (hnone : ¬ b.InFlight e) (actionId : String)
    (ok : Bool) : Sound (b.entrySent e actionId ok) := by
  have hget : ∀ id e', (b.entrySent e actionId ok).openActions.get id = some (some e') →
      b.openActions.get id = some (some e') := by
    intro id e' hid
    unfold entrySent at hid
    dsimp only at hid
    by_cases hdelete : (ok : Prop) ∧ b.openActions.get actionId = some (some e)
    · rw [if_pos hdelete, InsertionMap.get_delete] at hid
      by_cases heq : id = actionId
      · rw [if_pos heq] at hid
        cases hid
      · rwa [if_neg heq] at hid
    · rwa [if_neg hdelete] at hid
  refine ⟨?_, ?_, ?_, ?_, ?_, ?_, h.distinct⟩
  · intro id e' hid
    obtain ⟨⟨x, hx, hxid⟩, hlast⟩ := h.kept id e' (hget id e' hid)
    have hlt : e' < (b.entries.modify e fun entry => { entry with sending := false }).length := by
      rw [List.length_modify]
      exact (List.getElem?_eq_some_iff.mp hx).1
    have hsome := List.getElem?_eq_getElem hlt
    obtain ⟨y, hy, hyid, -⟩ := getElem?_modify_eq_some hsome
    cases hx.symm.trans hy
    refine ⟨⟨_, hsome, hyid.trans hxid⟩, fun i x' hx' hid' => ?_⟩
    obtain ⟨y', hy', hyid', -⟩ := getElem?_modify_eq_some hx'
    exact hlast i y' hy' (hyid'.symm.trans hid')
  · intro i x hx
    obtain ⟨y, hy, -, horigin, -⟩ := getElem?_modify_eq_some hx
    rw [horigin]
    exact h.origin_le i y hy
  · intro i x i' x' hx hx' hsame
    obtain ⟨y, hy, hid, horigin, -⟩ := getElem?_modify_eq_some hx
    obtain ⟨y', hy', hid', horigin', -⟩ := getElem?_modify_eq_some hx'
    rw [hid, hid']
    exact h.owner i y i' y' hy hy' (by rw [← horigin, ← horigin', hsame])
  · intro i x i' x' hx hx' hsame hsending hsending'
    obtain ⟨y, hy, -, horigin, hs⟩ := getElem?_modify_eq_some hx
    obtain ⟨y', hy', -, horigin', hs'⟩ := getElem?_modify_eq_some hx'
    rw [hs, Bool.and_eq_true] at hsending
    rw [hs', Bool.and_eq_true] at hsending'
    exact h.alone i y i' y' hy hy' (by rw [← horigin, ← horigin', hsame]) hsending.1 hsending'.1
  · intro id i x i' x' hid hx hx' hsame hsending'
    obtain ⟨y, hy, -, horigin, -⟩ := getElem?_modify_eq_some hx
    obtain ⟨y', hy', -, horigin', hs'⟩ := getElem?_modify_eq_some hx'
    rw [hs', Bool.and_eq_true] at hsending'
    exact h.latest id i y i' y' (hget id i hid) hy hy' (by rw [← horigin, ← horigin', hsame])
      hsending'.1
  · intro s hs i hi
    obtain ⟨x, hx, hrest⟩ := h.sends s hs i hi
    have hne : i ≠ e := by
      rintro rfl
      exact hnone ⟨s, hs, hi⟩
    exact ⟨x, modify_getElem?_of_ne hx hne, hrest⟩

/-- A send returns: no other was made for its entry. -/
theorem sound_erase (h : Sound b) {k : Nat} {s : OutcomeSend} (hs : b.sends[k]? = some s) :
    Sound { b with sends := b.sends.eraseIdx k }
      ∧ ∀ e, s.entry = some e → ¬ InFlight { b with sends := b.sends.eraseIdx k } e := by
  obtain ⟨hk, hget⟩ := List.getElem?_eq_some_iff.mp hs
  have hsplit : b.sends = b.sends.take k ++ s :: b.sends.drop (k + 1) := by
    rw [← hget, ← List.drop_eq_getElem_cons hk, List.take_append_drop]
  have herase : b.sends.eraseIdx k = b.sends.take k ++ b.sends.drop (k + 1) :=
    List.eraseIdx_eq_take_drop_succ b.sends k
  have hdistinct := h.distinct
  rw [hsplit, List.filterMap_append, List.filterMap_cons] at hdistinct
  refine ⟨⟨h.kept, h.origin_le, h.owner, h.alone, h.latest, fun s' hs' => ?_, ?_⟩, ?_⟩
  · exact h.sends s' (List.mem_of_mem_eraseIdx hs')
  · show ((b.sends.eraseIdx k).filterMap OutcomeSend.entry).Nodup
    exact h.distinct.sublist ((List.eraseIdx_sublist b.sends k).filterMap _)
  · rintro e he ⟨s', hs', hentry⟩
    rw [he] at hdistinct
    have hs'' : s' ∈ b.sends.take k ++ b.sends.drop (k + 1) := herase ▸ hs'
    have hmem : e ∈ (b.sends.take k).filterMap OutcomeSend.entry
        ++ (b.sends.drop (k + 1)).filterMap OutcomeSend.entry := by
      rw [← List.filterMap_append]
      exact List.mem_filterMap.mpr ⟨s', hs'', hentry⟩
    exact (List.nodup_middle.mp hdistinct |> List.nodup_cons.mp).1 hmem

theorem sound_resolved (h : Sound b) (k : Nat) (ok : Bool) : Sound (b.resolved k ok) := by
  unfold resolved
  cases hs : b.sends[k]? with
  | none => exact h
  | some s =>
      obtain ⟨hsound, hnone⟩ := sound_erase h hs
      dsimp only
      cases he : s.entry with
      | none => exact hsound
      | some e => exact sound_entrySent hsound (hnone e he) _ _

/-! ## Settlements -/

/-- A settlement reports `unknown` for an action without an outcome, or repeats the outcome that
is kept for it, which is not being reported. -/
def Settles (b : OutcomeBook) (x : OutcomeEntry) : Prop :=
  b.openActions.get x.actionId = some none ∧ x.outcome = .unknown
  ∨ ∃ e y, b.openActions.get x.actionId = some (some e) ∧ b.entries[e]? = some y
      ∧ ¬ b.InFlight e ∧ x.outcome = y.outcome ∧ x.detail = y.detail ∧ x.origin = y.origin

/-- What a settlement has done so far. -/
structure Delivers (b₀ b : OutcomeBook) : Prop where
  start : Sound b₀
  sound : Sound b
  older : ∀ (e : Nat) (x : OutcomeEntry), b₀.entries[e]? = some x → b.entries[e]? = some x
  newer : ∀ (e : Nat) (x : OutcomeEntry), b.entries[e]? = some x → b₀.entries[e]? = some x
    ∨ b₀.Settles x
  opens : ∀ id, b₀.openActions.has id = true → b.openActions.has id = true
  closing : b.closing = b₀.closing
  requests : b₀.closing = true → b.requests = b₀.requests

theorem Delivers.refl (h : Sound b) : Delivers b b where
  start := h
  sound := h
  older := fun _ _ hx => hx
  newer := fun _ _ hx => .inl hx
  opens := fun _ hid => hid
  closing := rfl
  requests := fun _ => rfl

theorem Delivers.of_eq (h : Delivers b₀ b) (hopen : b'.openActions = b.openActions)
    (hentries : b'.entries = b.entries) (hsends : b'.sends = b.sends)
    (hclosing : b'.closing = b.closing) (hrequests : b'.requests = b.requests) :
    Delivers b₀ b' where
  start := h.start
  sound := h.sound.of_eq hopen hentries hsends
  older := hentries ▸ h.older
  newer := hentries ▸ h.newer
  opens := hopen ▸ h.opens
  closing := hclosing.trans h.closing
  requests := fun hb => hrequests.trans (h.requests hb)

/-- The open actions of a report: its own, and those before. -/
theorem has_report {id actionId : String} {outcome : ReportKind} {detail : OutcomeDetail}
    {repeats : Option Nat} (h : b.openActions.has id = true) :
    (b.report actionId outcome detail repeats).openActions.has id = true := by
  unfold report
  by_cases hempty : actionId = ""
  · rw [if_pos hempty]
    exact h
  · rw [if_neg hempty]
    by_cases hstarted : outcome = .started
    · rw [if_pos hstarted]
      exact h
    · rw [if_neg hstarted]
      obtain ⟨v, hv⟩ := InsertionMap.has_iff.mp h
      refine InsertionMap.has_iff.mpr ?_
      show ∃ v, (b.openActions.set actionId (some b.entries.length)).get id = some v
      rw [InsertionMap.get_set]
      by_cases heq : id = actionId
      · exact ⟨_, if_pos heq⟩
      · exact ⟨v, by rw [if_neg heq, hv]⟩

theorem get_report_of_ne {id actionId : String} {outcome : ReportKind} {detail : OutcomeDetail}
    {repeats : Option Nat} (h : id ≠ actionId) :
    (b.report actionId outcome detail repeats).openActions.get id = b.openActions.get id := by
  unfold report
  by_cases hempty : actionId = ""
  · rw [if_pos hempty]
  · rw [if_neg hempty]
    by_cases hstarted : outcome = .started
    · rw [if_pos hstarted]
      rfl
    · rw [if_neg hstarted]
      exact InsertionMap.get_set_of_ne _ _ h

/-- The entries after a report: those before, and at most one for its action. -/
theorem entries_report (actionId : String) (outcome : ReportKind) (detail : OutcomeDetail)
    (repeats : Option Nat) :
    (b.report actionId outcome detail repeats).entries = b.entries
      ∨ (b.report actionId outcome detail repeats).entries
        = b.entries ++ [b.newEntry actionId outcome detail repeats] := by
  unfold report
  by_cases hempty : actionId = ""
  · rw [if_pos hempty]
    exact .inl rfl
  · rw [if_neg hempty]
    by_cases hstarted : outcome = .started
    · rw [if_pos hstarted]
      exact .inl rfl
    · rw [if_neg hstarted]
      exact .inr rfl

theorem closing_report (actionId : String) (outcome : ReportKind) (detail : OutcomeDetail)
    (repeats : Option Nat) : (b.report actionId outcome detail repeats).closing = b.closing := by
  unfold report
  split
  · rfl
  · split <;> rfl

/-- Nothing is requested by a context that is closed. -/
theorem requests_report (h : b.closing = true) (actionId : String) (outcome : ReportKind)
    (detail : OutcomeDetail) (repeats : Option Nat) :
    (b.report actionId outcome detail repeats).requests = b.requests := by
  unfold report
  split
  · rfl
  · split
    · exact if_pos h
    · exact if_pos h

/-- A settlement makes a report. -/
theorem Delivers.report (h : Delivers b₀ b) {actionId : String} {outcome : ReportKind}
    {detail : OutcomeDetail} {repeats : Option Nat} (hrep : b.Repeatable actionId repeats)
    (hsettles : b₀.Settles (b.newEntry actionId outcome detail repeats)) :
    Delivers b₀ (b.report actionId outcome detail repeats) where
  start := h.start
  sound := sound_report h.sound hrep outcome detail
  older := by
    intro e x hx
    rcases @entries_report b actionId outcome detail repeats with heq | heq
    · rw [heq]
      exact h.older e x hx
    · rw [heq]
      exact getElem?_concat_eq_some.mpr (.inl (h.older e x hx))
  newer := by
    intro e x hx
    rcases @entries_report b actionId outcome detail repeats with heq | heq
    · rw [heq] at hx
      exact h.newer e x hx
    · rw [heq] at hx
      rcases getElem?_concat_eq_some.mp hx with hx | ⟨-, rfl⟩
      · exact h.newer e x hx
      · exact .inr hsettles
  opens := fun id hid => has_report (h.opens id hid)
  closing := (closing_report ..).trans h.closing
  requests := fun hb => (requests_report (h.closing.trans hb) ..).trans (h.requests hb)

/-- **A settlement comes to an action** that is as it was when the settlement began, and whose
outcome is not being reported. -/
theorem Delivers.settle (h : Delivers b₀ b) (p : Pass) {id : String} {retained : Option Nat}
    (hget : b.openActions.get id = b₀.openActions.get id)
    (hsending : ∀ e, retained = some e → b.sending e = false) :
    Delivers b₀ (b.settle p id retained).1
      ∧ ∀ id', id' ≠ id →
          (b.settle p id retained).1.openActions.get id' = b.openActions.get id' := by
  unfold OutcomeBook.settle
  by_cases hsame : b.openActions.get id ≠ some retained
  · rw [if_pos hsame]
    exact ⟨h, fun _ _ => rfl⟩
  · rw [if_neg hsame]
    rw [not_not] at hsame
    cases retained with
    | none =>
        refine ⟨h.report (fun o ho => by cases ho) (.inl ⟨?_, rfl⟩), fun id' hne =>
          get_report_of_ne hne⟩
        exact hget.symm.trans hsame
    | some e =>
        cases hentry : b.entries[e]? with
        | none =>
            dsimp only
            rw [hentry]
            exact ⟨h, fun _ _ => rfl⟩
        | some entry =>
            dsimp only
            rw [hentry]
            have hnot := hsending e rfl
            unfold sending at hnot
            rw [hentry] at hnot
            refine ⟨h.report ?_ (.inr ?_), fun id' hne => get_report_of_ne hne⟩
            · intro o ho
              exact ⟨e, entry, hsame, hentry, hnot, Option.some.inj ho⟩
            · -- The entry was there when the settlement began.
              have hget₀ := hget.symm.trans hsame
              obtain ⟨⟨x, hx, -⟩, -⟩ := h.start.kept id e hget₀
              cases (h.older e x hx).symm.trans hentry
              refine ⟨e, entry, hget₀, hx, fun hflight => ?_, rfl, rfl, rfl⟩
              have hsent := h.start.sending_of_inFlight hflight
              unfold sending at hsent
              rw [hx, hnot] at hsent
              cases hsent

theorem Delivers.visits : ∀ {as : List (String × Option Nat)} {b : OutcomeBook} (p : Pass),
    Delivers b₀ b → (as.map Prod.fst).Nodup →
    (∀ a ∈ as, b.openActions.get a.1 = b₀.openActions.get a.1) →
    Delivers b₀ (as.foldl visit (b, p)).1
  | [], _, _, h, _, _ => h
  | (id, retained) :: rest, b, p, h, hnodup, hget => by
      rw [List.map_cons, List.nodup_cons] at hnodup
      rw [List.foldl_cons]
      have hrest : ∀ a ∈ rest, a.1 ≠ id := fun a ha heq =>
        hnodup.1 (List.mem_map.mpr ⟨a, ha, heq⟩)
      have hlater : ∀ a ∈ rest, b.openActions.get a.1 = b₀.openActions.get a.1 := fun a ha =>
        hget a (List.mem_cons_of_mem _ ha)
      have hsettle : ∀ p, (∀ e, retained = some e → b.sending e = false) →
          Delivers b₀ (rest.foldl visit (b.settle p id retained)).1 := by
        intro p hnot
        obtain ⟨hdelivers, hother⟩ := h.settle p (hget _ List.mem_cons_self) hnot
        refine hdelivers.visits _ hnodup.2 fun a ha => ?_
        rw [hother a.1 (hrest a ha)]
        exact hlater a ha
      cases retained with
      | none => exact hsettle p fun e he => by cases he
      | some e =>
          unfold visit
          dsimp only
          by_cases hsent : b.sending e = true
          · rw [if_pos hsent]
            exact h.visits _ hnodup.2 hlater
          · rw [if_neg hsent]
            refine hsettle p fun e' he' => ?_
            cases he'
            exact Bool.eq_false_of_not_eq_true hsent

theorem Delivers.settleOpen (h : Delivers b₀ b) (hopen : b.openActions = b₀.openActions)
    (summary : String) (only : Option (List String)) : Delivers b₀ (b.settleOpen summary only) := by
  have hnodup : ((b.openActions.entries.filter fun a => only.all (a.1 ∈ ·)).map Prod.fst).Nodup :=
    b.openActions.nodup.sublist (List.filter_sublist.map _)
  have hvisits := h.visits ⟨summary, [], []⟩ hnodup fun a _ => by rw [hopen]
  exact hvisits.of_eq rfl rfl rfl rfl rfl

theorem Delivers.resume (h : Sound b) (i j : Nat) : Delivers b (b.resume i j) := by
  unfold OutcomeBook.resume
  cases b.passes[i]? with
  | none => exact .refl h
  | some p =>
      dsimp only
      cases p.waiting[j]? with
      | none => exact .refl h
      | some a =>
          obtain ⟨actionId, e⟩ := a
          dsimp only
          by_cases hsent : b.sending e = true
          · rw [if_pos hsent]
            exact .refl h
          · rw [if_neg hsent]
            have hget : b.openActions.get actionId = b.openActions.get actionId := rfl
            have hnot : ∀ e', some e = some e' → b.sending e' = false := by
              intro e' he'
              cases he'
              exact Bool.eq_false_of_not_eq_true hsent
            have hsettle := (Delivers.refl h).settle { p with waiting := p.waiting.eraseIdx j }
              hget hnot
            exact hsettle.1.of_eq rfl rfl rfl rfl rfl

theorem Delivers.settleFinal (h : Sound b) (summary : String) (budgetMs firstDelayMs now : Nat) :
    Delivers b (b.settleFinal summary budgetMs firstDelayMs now) := by
  unfold OutcomeBook.settleFinal
  dsimp only
  split
  · refine Delivers.settleOpen ?_ (by rfl) summary _
    exact (Delivers.refl h).of_eq rfl rfl rfl rfl rfl
  · exact .refl h

theorem Delivers.passReturned (h : Sound b) (i now : Nat) : Delivers b (b.passReturned i now) := by
  unfold OutcomeBook.passReturned
  split
  · exact .refl h
  · split
    · split
      · exact (Delivers.refl h).of_eq rfl rfl rfl rfl rfl
      · exact .refl h
    · exact .refl h

theorem Delivers.wake (h : Sound b) (i : Nat) : Delivers b (b.wake i) := by
  unfold OutcomeBook.wake
  split
  · exact .refl h
  · split
    · split
      · exact (Delivers.refl h).of_eq rfl rfl rfl rfl rfl
      · refine Delivers.settleOpen ?_ (by rfl) _ _
        exact (Delivers.refl h).of_eq rfl rfl rfl rfl rfl
    · exact .refl h

theorem Delivers.released (h : Sound b) (i : Nat) : Delivers b (b.released i) := by
  unfold OutcomeBook.released
  split
  · exact .refl h
  · split
    · exact (Delivers.refl h).of_eq rfl rfl rfl rfl rfl
    · exact .refl h

/-- What settlements do; the rest is done by the runtime, the gateway and the daemon. -/
def Op.settlement : Op → Bool
  | .settleOpen .. | .resume .. | .settleFinal .. => true
  | .passReturned .. | .wake .. | .released .. => true
  | .authorized .. | .report .. | .resolved .. | .close .. => false

theorem delivers_step (h : Sound b) {op : Op} (hop : op.settlement = true) :
    Delivers b (b.step op) := by
  cases op with
  | authorized v => cases hop
  | report actionId outcome detail => cases hop
  | resolved k ok => cases hop
  | settleOpen summary only => exact (Delivers.refl h).settleOpen rfl summary only
  | resume pass action => exact .resume h pass action
  | settleFinal summary budgetMs firstDelayMs now => exact .settleFinal h ..
  | passReturned final now => exact .passReturned h final now
  | wake final => exact .wake h final
  | released final => exact .released h final
  | close summary => cases hop

/-- **Whatever happens next keeps the context sound.** -/
theorem sound_step (h : Sound b) (op : Op) : Sound (b.step op) := by
  cases op with
  | authorized v => exact sound_authorized h v
  | report actionId outcome detail =>
      cases actionId with
      | none => exact h
      | some actionId => exact sound_report h (fun o ho => by cases ho) outcome detail
  | resolved k ok => exact sound_resolved h k ok
  | settleOpen summary only => exact (delivers_step h rfl).sound
  | resume pass action => exact (delivers_step h rfl).sound
  | settleFinal summary budgetMs firstDelayMs now => exact (delivers_step h rfl).sound
  | passReturned final now => exact (delivers_step h rfl).sound
  | wake final => exact (delivers_step h rfl).sound
  | released final => exact (delivers_step h rfl).sound
  | close summary => exact h.of_eq rfl rfl rfl

/-! ## Exactness -/

/-- What is handed over for an open action: its recorded outcome, or `unknown`. -/
def Outstanding (b : OutcomeBook) (summary : String) (o : HandedOutcome) : Prop :=
  o.codingSessionId = b.id
    ∧ (b.openActions.get o.actionId = some none
        ∧ o.outcome = .unknown ∧ o.detail = { summary := some summary }
      ∨ ∃ e x, b.openActions.get o.actionId = some (some e) ∧ b.LastRecorded o.actionId e
        ∧ b.entries[e]? = some x ∧ o.outcome = x.outcome ∧ o.detail = x.detail)

/-- What holds of whatever happens next. -/
structure Exact (b : OutcomeBook) (op : Op) : Prop where
  /-- An action goes only when the send of the outcome last recorded for it returned true. -/
  leaves : ∀ id, b.openActions.has id = true → (b.step op).openActions.has id = false →
    ∃ k s e, op = .resolved k true ∧ b.sends[k]? = some s ∧ s.requested = true
      ∧ s.entry = some e ∧ s.pending.actionId = id ∧ b.LastRecorded id e
  /-- What a settlement records is `unknown`, where nothing was recorded, or repeats what was. -/
  settles : op.settlement = true → ∀ (e : Nat) (x : OutcomeEntry),
    (b.step op).entries[e]? = some x → b.entries[e]? = some x ∨ b.Settles x
  single : (b.step op).SingleFlight
  closed : b.closing = true → (b.step op).closing = true ∧ (b.step op).requests = b.requests
  hands : ∀ summary, op = .close summary → (b.step op).closing = true
    ∧ ∃ out, (b.step op).handed = b.handed ++ [out] ∧ out.map (·.actionId) = b.openActions.keys
      ∧ (out.map (·.actionId)).Nodup ∧ ∀ o ∈ out, b.Outstanding summary o

theorem outstanding_handOver (h : Sound b) {summary : String} {a : String × Option Nat}
    (ha : a ∈ b.openActions.entries) :
    (b.handOver summary a).actionId = a.1 ∧ b.Outstanding summary (b.handOver summary a) := by
  obtain ⟨id, retained⟩ := a
  have hget := InsertionMap.mem_entries_iff.mp ha
  unfold handOver
  cases retained with
  | none => exact ⟨rfl, rfl, .inl ⟨hget, rfl, rfl⟩⟩
  | some e =>
      have hlast := h.kept id e hget
      obtain ⟨⟨x, hx, -⟩, -⟩ := h.kept id e hget
      rw [Option.bind_some, hx]
      exact ⟨rfl, rfl, .inr ⟨e, x, hget, hlast, hx, rfl, rfl⟩⟩

/-- An action that a report settles was reported for, with the outcome recorded last. -/
theorem leaves_resolved (h : Sound b) {k : Nat} {ok : Bool} {id : String}
    (hopen : b.openActions.has id = true) (hgone : (b.resolved k ok).openActions.has id = false) :
    ∃ s e, ok = true ∧ b.sends[k]? = some s ∧ s.requested = true ∧ s.entry = some e
      ∧ s.pending.actionId = id ∧ b.LastRecorded id e := by
  unfold resolved at hgone
  cases hs : b.sends[k]? with
  | none =>
      rw [hs] at hgone
      exact absurd (hopen.symm.trans hgone) (by decide)
  | some s =>
      rw [hs] at hgone
      dsimp only at hgone
      cases he : s.entry with
      | none =>
          rw [he] at hgone
          exact absurd (hopen.symm.trans hgone) (by decide)
      | some e =>
          rw [he] at hgone
          unfold entrySent at hgone
          dsimp only at hgone
          by_cases hdelete : (s.requested && ok) = true
              ∧ b.openActions.get s.pending.actionId = some (some e)
          · rw [if_pos hdelete] at hgone
            obtain ⟨hboth, hget⟩ := hdelete
            rw [Bool.and_eq_true] at hboth
            have hid : s.pending.actionId = id := by
              by_contra hne
              obtain ⟨v, hv⟩ := InsertionMap.has_iff.mp hopen
              have hstill : (b.openActions.delete s.pending.actionId).has id = true :=
                InsertionMap.has_iff.mpr ⟨v, by
                  rw [InsertionMap.get_delete_of_ne _ (Ne.symm hne), hv]⟩
              exact absurd (hstill.symm.trans hgone) (by decide)
            exact ⟨s, e, hboth.2, rfl, hboth.1, he, hid, hid ▸ h.kept _ e hget⟩
          · rw [if_neg hdelete] at hgone
            exact absurd (hopen.symm.trans hgone) (by decide)

theorem opens_authorized {id : String} {v : Verdict} (h : b.openActions.has id = true) :
    (b.authorized v).openActions.has id = true := by
  unfold authorized
  cases v.admits with
  | none => exact h
  | some actionId =>
      dsimp only
      by_cases hopen : b.openActions.has actionId = true
      · rw [if_pos hopen]
        exact h
      · rw [if_neg hopen]
        obtain ⟨w, hw⟩ := InsertionMap.has_iff.mp h
        refine InsertionMap.has_iff.mpr ?_
        show ∃ w, (b.openActions.set actionId none).get id = some w
        rw [InsertionMap.get_set]
        by_cases heq : id = actionId
        · exact ⟨_, if_pos heq⟩
        · exact ⟨w, by rw [if_neg heq, hw]⟩

/-- Only a send that returns lets an action go. -/
theorem opens_step (h : Sound b) {op : Op} (hop : ∀ k ok, op ≠ .resolved k ok) {id : String}
    (hopen : b.openActions.has id = true) : (b.step op).openActions.has id = true := by
  cases op with
  | authorized v => exact opens_authorized hopen
  | report actionId outcome detail =>
      cases actionId with
      | none => exact hopen
      | some actionId => exact has_report hopen
  | resolved k ok => exact absurd rfl (hop k ok)
  | settleOpen summary only => exact (delivers_step h rfl).opens id hopen
  | resume pass action => exact (delivers_step h rfl).opens id hopen
  | settleFinal summary budgetMs firstDelayMs now => exact (delivers_step h rfl).opens id hopen
  | passReturned final now => exact (delivers_step h rfl).opens id hopen
  | wake final => exact (delivers_step h rfl).opens id hopen
  | released final => exact (delivers_step h rfl).opens id hopen
  | close summary => exact hopen

theorem closed_authorized (v : Verdict) : (b.authorized v).closing = b.closing
    ∧ (b.authorized v).requests = b.requests := by
  unfold authorized
  split
  · exact ⟨rfl, rfl⟩
  · split
    · exact ⟨rfl, rfl⟩
    · exact ⟨rfl, rfl⟩

theorem closed_resolved (k : Nat) (ok : Bool) : (b.resolved k ok).closing = b.closing
    ∧ (b.resolved k ok).requests = b.requests := by
  unfold resolved
  split
  · exact ⟨rfl, rfl⟩
  · dsimp only
    split
    · exact ⟨rfl, rfl⟩
    · exact ⟨rfl, rfl⟩

/-- A closed context stays closed and requests nothing. -/
theorem closed_step (h : Sound b) (hclosed : b.closing = true) (op : Op) :
    (b.step op).closing = true ∧ (b.step op).requests = b.requests := by
  have hsettlement : op.settlement = true →
      (b.step op).closing = true ∧ (b.step op).requests = b.requests := by
    intro hop
    have hdelivers := delivers_step h hop
    exact ⟨hdelivers.closing.trans hclosed, hdelivers.requests hclosed⟩
  cases op with
  | authorized v =>
      obtain ⟨hclosing, hrequests⟩ := @closed_authorized b v
      exact ⟨hclosing.trans hclosed, hrequests⟩
  | report actionId outcome detail =>
      cases actionId with
      | none => exact ⟨hclosed, rfl⟩
      | some actionId => exact ⟨(closing_report ..).trans hclosed, requests_report hclosed ..⟩
  | resolved k ok =>
      obtain ⟨hclosing, hrequests⟩ := @closed_resolved b k ok
      exact ⟨hclosing.trans hclosed, hrequests⟩
  | settleOpen summary only => exact hsettlement rfl
  | resume pass action => exact hsettlement rfl
  | settleFinal summary budgetMs firstDelayMs now => exact hsettlement rfl
  | passReturned final now => exact hsettlement rfl
  | wake final => exact hsettlement rfl
  | released final => exact hsettlement rfl
  | close summary => exact ⟨rfl, rfl⟩

theorem exact_step (h : Sound b) (op : Op) : b.Exact op where
  leaves := by
    intro id hopen hgone
    by_cases hop : ∃ k ok, op = .resolved k ok
    · obtain ⟨k, ok, rfl⟩ := hop
      obtain ⟨s, e, rfl, hrest⟩ := leaves_resolved h hopen hgone
      exact ⟨k, s, e, rfl, hrest⟩
    · have hstill := opens_step h (fun k ok heq => hop ⟨k, ok, heq⟩) hopen
      exact absurd (hstill.symm.trans hgone) (by decide)
  settles := fun hop => (delivers_step h hop).newer
  single := (sound_step h op).singleFlight
  closed := fun hclosed => closed_step h hclosed op
  hands := by
    rintro summary rfl
    have hids : (b.openActions.entries.map (b.handOver summary)).map (·.actionId)
        = b.openActions.keys := by
      rw [List.map_map]
      exact List.map_congr_left fun a ha => (outstanding_handOver h ha).1
    refine ⟨rfl, _, rfl, hids, ?_, fun o ho => ?_⟩
    · rw [hids]
      exact b.openActions.nodup
    · obtain ⟨a, ha, rfl⟩ := List.mem_map.mp ho
      exact (outstanding_handOver h ha).2

/-- **Settlements are exact**, whatever happens in a session context and in whichever order. -/
theorem settlements_exact_run (id : String) (ops : List Op) : Along step Exact (new id) ops := by
  suffices hall : ∀ b, Sound b → Along step Exact b ops from hall _ (sound_new id)
  induction ops with
  | nil => exact fun _ _ => trivial
  | cons op ops ih => exact fun b h => ⟨exact_step h op, ih _ (sound_step h op)⟩

end Agenomic.Connector.OutcomeBook
