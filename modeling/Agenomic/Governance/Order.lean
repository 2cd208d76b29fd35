import Mathlib.Data.List.Chain
import Agenomic.Governance.Diagnostic
import Agenomic.Lib.Split

/-!
# What an audit depends on

Traces are grouped by the label of their signal and by their skill, and `OneSignal` says that
those grouped so have one signal. Exactly then each trace has a cluster of its own signal and
skill (**`own_cluster_iff`**), and exactly then the order of the traces shows nowhere but in
the exemplars (**`order_iff`**). What the audit says of a cluster is read off its size, its
signal and whether it has keywords (**`audit_verdicts`**).
-/

namespace Agenomic.Governance

open Lib

variable (blake3 : Bytes → Bytes) (debug : String → String)

/-- Traces with one label and one skill have one signal. -/
def OneSignal (traces : List FlaggedTrace) : Prop :=
  ∀ s ∈ traces, ∀ t ∈ traces, clusterKey s = clusterKey t → s.signal = t.signal

/-! ## Clusters and their traces -/

/-- The cluster that a trace is grouped into. -/
def own (traces : List FlaggedTrace) (t : FlaggedTrace) : Cluster :=
  buildCluster blake3 t.skill (traces.filter (clusterKey · = clusterKey t))

variable {traces : List FlaggedTrace} {s t : FlaggedTrace} {c : Cluster}

theorem mem_filter_own (ht : t ∈ traces) : t ∈ traces.filter (clusterKey · = clusterKey t) :=
  List.mem_filter.mpr ⟨ht, decide_eq_true rfl⟩

theorem mem_cluster : c ∈ cluster blake3 traces ↔ ∃ t ∈ traces, c = own blake3 traces t := by
  unfold cluster
  rw [List.mem_insertionSort, List.mem_map]
  constructor
  · rintro ⟨⟨k, members⟩, hg, rfl⟩
    obtain ⟨hne, hmembers⟩ := mem_groups.mp hg
    obtain ⟨t, ht⟩ := List.exists_mem_of_ne_nil members hne
    rw [hmembers, List.mem_filter, decide_eq_true_iff] at ht
    obtain ⟨ht, rfl⟩ := ht
    refine ⟨t, ht, ?_⟩
    rw [hmembers]
    rfl
  · rintro ⟨t, ht, rfl⟩
    exact ⟨_, mem_groups.mpr ⟨List.ne_nil_of_mem (mem_filter_own ht), rfl⟩, rfl⟩

theorem own_congr (h : clusterKey s = clusterKey t) : own blake3 traces s = own blake3 traces t := by
  have hskill : s.skill = t.skill := congrArg (fun k => (ofLex k).2) h
  unfold own
  rw [h, hskill]

/-- The signal of a cluster is that of the first trace in its group. -/
theorem exists_signal_own (ht : t ∈ traces) : ∃ m ∈ traces, clusterKey m = clusterKey t
    ∧ (own blake3 traces t).signal = m.signal := by
  obtain ⟨m, rest, hgroup⟩ := List.exists_cons_of_ne_nil (List.ne_nil_of_mem (mem_filter_own ht))
  have hm : m ∈ traces.filter (clusterKey · = clusterKey t) := hgroup ▸ List.mem_cons_self
  obtain ⟨hm, hkey⟩ := List.mem_filter.mp hm
  refine ⟨m, hm, of_decide_eq_true hkey, ?_⟩
  unfold own
  rw [hgroup]
  rfl

theorem key_own (ht : t ∈ traces) :
    toLex ((own blake3 traces t).signal.label, t.skill) = clusterKey t := by
  obtain ⟨m, -, hkey, hsignal⟩ := exists_signal_own blake3 ht
  rw [hsignal, show m.signal.label = t.signal.label from congrArg (fun k => (ofLex k).1) hkey]
  rfl

theorem mem_members_own (id : String) : id ∈ (own blake3 traces t).members
    ↔ ∃ s ∈ traces, clusterKey s = clusterKey t ∧ s.traceId = id := by
  show id ∈ sortDedup (· ≤ ·) _ ↔ _
  rw [mem_sortDedup, List.mem_map]
  constructor
  · rintro ⟨s, hs, hid⟩
    obtain ⟨hs, hkey⟩ := List.mem_filter.mp hs
    exact ⟨s, hs, of_decide_eq_true hkey, hid⟩
  · rintro ⟨s, hs, hkey, hid⟩
    exact ⟨s, List.mem_filter.mpr ⟨hs, decide_eq_true hkey⟩, hid⟩

/-- A cluster with the signal and the skill of a trace is the one it is grouped into. -/
theorem eq_own (hc : c ∈ cluster blake3 traces) (hsignal : c.signal = t.signal)
    (hskill : c.skill = t.skill) : c = own blake3 traces t := by
  obtain ⟨s, hs, rfl⟩ := (mem_cluster blake3).mp hc
  refine own_congr blake3 ?_
  rw [← key_own blake3 hs, hsignal, show s.skill = t.skill from hskill]
  rfl

theorem OneSignal.signal_own (hone : OneSignal traces) (ht : t ∈ traces) :
    (own blake3 traces t).signal = t.signal := by
  obtain ⟨m, hm, hkey, hsignal⟩ := exists_signal_own blake3 ht
  exact hsignal.trans (hone m hm t ht hkey)

/-- A cluster without its exemplars. -/
def Cluster.outline (c : Cluster) : Cluster := { c with exemplars := [] }

theorem mineKeywords_perm {xs ys : List FlaggedTrace} (h : xs.Perm ys) :
    mineKeywords xs = mineKeywords ys := by
  have htokens : (tokensOf xs).Perm (tokensOf ys) := h.flatMap_right _
  have hwords : sortDedup (· ≤ ·) (tokensOf xs) = sortDedup (· ≤ ·) (tokensOf ys) :=
    sortDedup_congr fun w => htokens.mem_iff
  have hcounts : (fun w => (w, (tokensOf xs).count w)) = fun w => (w, (tokensOf ys).count w) :=
    funext fun w => by rw [htokens.count_eq]
  unfold mineKeywords
  dsimp only
  rw [hwords, hcounts]

theorem outline_buildCluster_perm {xs ys : List FlaggedTrace} (h : xs.Perm ys) (skill : String)
    (hone : ∀ s ∈ xs, ∀ t ∈ xs, s.signal = t.signal) :
    (buildCluster blake3 skill xs).outline = (buildCluster blake3 skill ys).outline := by
  have hsignal : xs.head?.map (·.signal) = ys.head?.map (·.signal) := by
    cases xs with
    | nil => rw [h.nil_eq]
    | cons s xs =>
        cases ys with
        | nil => exact absurd h.symm.nil_eq (List.cons_ne_nil s xs).symm
        | cons t ys =>
            have ht : t ∈ s :: xs := h.mem_iff.mpr List.mem_cons_self
            exact congrArg some (hone s List.mem_cons_self t ht)
  have hids : sortDedup (· ≤ ·) (xs.map (·.traceId)) = sortDedup (· ≤ ·) (ys.map (·.traceId)) :=
    sortDedup_congr fun id => (h.map _).mem_iff
  unfold buildCluster Cluster.outline
  dsimp only
  rw [hsignal, hids, mineKeywords_perm h]

theorem outline_cluster_perm {xs ys : List FlaggedTrace} (h : xs.Perm ys) (hone : OneSignal xs) :
    (cluster blake3 xs).map Cluster.outline = (cluster blake3 ys).map Cluster.outline := by
  have hsort : ∀ cs : List Cluster, (cs.insertionSort LargestFirst).map Cluster.outline
      = (cs.map Cluster.outline).insertionSort LargestFirst := fun cs =>
    List.map_insertionSort LargestFirst LargestFirst _ cs fun _ _ _ _ => Iff.rfl
  unfold cluster
  rw [hsort, hsort, List.map_map, List.map_map]
  congr 1
  refine map_groups_congr h fun k => outline_buildCluster_perm blake3 (h.filter _) _ ?_
  intro s hs t ht
  obtain ⟨hs, hskey⟩ := List.mem_filter.mp hs
  obtain ⟨ht, htkey⟩ := List.mem_filter.mp ht
  exact hone s hs t ht ((of_decide_eq_true hskey).trans (of_decide_eq_true htkey).symm)

/-- A proposal does not depend on the exemplars. -/
theorem proposals_eq_outline (traces : List FlaggedTrace) :
    (audit blake3 debug traces).proposals
      = ((cluster blake3 traces).map Cluster.outline).map (hypothesize debug blake3) := by
  rw [List.map_map]
  rfl

/-- The first trace gives its group the signal. -/
theorem signal_own_cons (t : FlaggedTrace) (rest : List FlaggedTrace) :
    (own blake3 (t :: rest) t).signal = t.signal := by
  unfold own
  rw [List.filter_cons_of_pos (by simp)]
  rfl

/-- **The order of the traces** shows in the exemplars only, if the groups have one signal. -/
theorem order_iff (xs : List FlaggedTrace) :
    (∀ ys, ys.Perm xs →
      (cluster blake3 ys).map Cluster.outline = (cluster blake3 xs).map Cluster.outline
        ∧ (audit blake3 debug ys).proposals = (audit blake3 debug xs).proposals
        ∧ (audit blake3 debug ys).critiques = (audit blake3 debug xs).critiques)
      ↔ OneSignal xs := by
  constructor
  · intro h s hs t ht hkey
    obtain ⟨hfirst, -⟩ := h (s :: xs.erase s) (List.perm_cons_erase hs).symm
    obtain ⟨hsecond, -⟩ := h (t :: xs.erase t) (List.perm_cons_erase ht).symm
    have hmem : (own blake3 (s :: xs.erase s) s).outline
        ∈ (cluster blake3 (s :: xs.erase s)).map Cluster.outline :=
      List.mem_map.mpr ⟨_, (mem_cluster blake3).mpr ⟨s, List.mem_cons_self, rfl⟩, rfl⟩
    rw [hfirst, ← hsecond] at hmem
    obtain ⟨c, hc, houtline⟩ := List.mem_map.mp hmem
    have hsignal : c.signal = s.signal :=
      (congrArg Cluster.signal houtline).trans (signal_own_cons blake3 s _)
    have hown := eq_own blake3 hc hsignal (congrArg Cluster.skill houtline)
    rw [own_congr blake3 hkey] at hown
    rw [← hsignal, hown, signal_own_cons]
  · intro hone ys hperm
    have houtline := (outline_cluster_perm blake3 hperm.symm hone).symm
    have hproposals : (audit blake3 debug ys).proposals = (audit blake3 debug xs).proposals := by
      rw [proposals_eq_outline, proposals_eq_outline, houtline]
    exact ⟨houtline, hproposals, congrArg (List.map critique) hproposals⟩

/-! ## Verdicts -/

theorem fromFindings_eq_block {findings : List Finding} :
    Verdict.fromFindings findings = .block ↔ ∃ f ∈ findings, 3 ≤ f.severity.rank := by
  unfold Verdict.fromFindings
  cases hmax : (findings.map (·.severity.rank)).max? with
  | none =>
      rw [List.max?_eq_none_iff, List.map_eq_nil_iff] at hmax
      rw [hmax]
      simp
  | some n =>
      obtain ⟨hmem, hle⟩ := List.max?_eq_some_iff.mp hmax
      have hblock : (∃ f ∈ findings, 3 ≤ f.severity.rank) ↔ 3 ≤ n := by
        constructor
        · rintro ⟨f, hf, hrank⟩
          exact hrank.trans (hle _ (List.mem_map.mpr ⟨f, hf, rfl⟩))
        · intro hn
          obtain ⟨f, hf, rfl⟩ := List.mem_map.mp hmem
          exact ⟨f, hf, hn⟩
      rw [hblock]
      match n with
      | 0 | 1 | 2 => simp
      | n + 3 => simp

theorem fromFindings_ne_pass {findings : List Finding} {f : Finding} (hf : f ∈ findings)
    (hrank : 0 < f.severity.rank) : Verdict.fromFindings findings ≠ .pass := by
  unfold Verdict.fromFindings
  cases hmax : (findings.map (·.severity.rank)).max? with
  | none =>
      rw [List.max?_eq_none_iff, List.map_eq_nil_iff] at hmax
      rw [hmax] at hf
      cases hf
  | some n =>
      obtain ⟨-, hle⟩ := List.max?_eq_some_iff.mp hmax
      have hpos : 0 < n := hrank.trans_le (hle _ (List.mem_map.mpr ⟨f, hf, rfl⟩))
      match n with
      | 1 | 2 => simp
      | n + 3 => simp

theorem mem_findings {p : Proposal} {f : Finding} :
    f ∈ (critique p).findings ↔ ∃ rule ∈ rules, rule p = some f := by
  unfold critique
  dsimp only
  rw [List.mem_insertionSort, List.mem_filterMap]

/-- A proposal is blocked for its evidence, for excluding nothing, or for a rule without an
anchor. -/
theorem blocked_iff (p : Proposal) : (critique p).verdict = .block ↔ p.evidenceCount < 3
    ∨ p.suggestedAction = .narrowSkillScope []
    ∨ ∃ hint, p.suggestedAction = .addPolicyRule hint ∧ unanchored hint = true := by
  refine (@fromFindings_eq_block (critique p).findings).trans ?_
  constructor
  · rintro ⟨f, hf, hrank⟩
    obtain ⟨rule, hrule, hfires⟩ := mem_findings.mp hf
    simp only [rules, List.mem_cons, List.not_mem_nil, or_false] at hrule
    rcases hrule with rfl | rfl | rfl | rfl | rfl | rfl | rfl
    · unfold ruleSampleSize at hfires
      split at hfires
      · exact .inl ‹_›
      · cases hfires
    · unfold ruleNoAction at hfires
      split at hfires <;> cases hfires
      exact absurd hrank (by decide)
    · unfold ruleExtensionTooLarge at hfires
      split at hfires
      · split at hfires <;> cases hfires
        exact absurd hrank (by simp [Severity.rank])
      · cases hfires
    · unfold ruleScopeNarrowingWithoutExclusions at hfires
      split at hfires
      · exact .inr (.inl ‹_›)
      · cases hfires
    · unfold rulePolicyRuleUnanchored at hfires
      split at hfires
      · split at hfires
        · exact .inr (.inr ⟨_, ‹_›, ‹_›⟩)
        · cases hfires
      · cases hfires
    · unfold ruleEscalationOverhaulNeedsHumanGate at hfires
      split at hfires
      · split at hfires <;> cases hfires
        exact absurd hrank (by decide)
      · cases hfires
    · unfold ruleNoTargetVersion at hfires
      split at hfires <;> cases hfires
      exact absurd hrank (by decide)
  · rintro (hfew | hscope | ⟨hint, hrule, hanchor⟩)
    · have hfires : ruleSampleSize p = some _ := if_pos hfew
      exact ⟨_, mem_findings.mpr ⟨_, by simp [rules], hfires⟩, Nat.le_refl 3⟩
    · obtain ⟨f, hfires, hrank⟩ : ∃ f, ruleScopeNarrowingWithoutExclusions p = some f
          ∧ 3 ≤ f.severity.rank := by
        unfold ruleScopeNarrowingWithoutExclusions
        rw [hscope]
        exact ⟨_, rfl, Nat.le_refl 3⟩
      exact ⟨f, mem_findings.mpr ⟨_, by simp [rules], hfires⟩, hrank⟩
    · obtain ⟨f, hfires, hrank⟩ : ∃ f, rulePolicyRuleUnanchored p = some f
          ∧ 3 ≤ f.severity.rank := by
        unfold rulePolicyRuleUnanchored
        rw [hrule]
        exact ⟨_, if_pos hanchor, Nat.le_refl 3⟩
      exact ⟨f, mem_findings.mpr ⟨_, by simp [rules], hfires⟩, hrank⟩

/-- A proposal that is not pinned to a version does not pass. -/
theorem not_passed (p : Proposal) (h : p.targetVersion = none) :
    (critique p).verdict ≠ .pass := by
  have hfires : ruleNoTargetVersion p = some _ := if_pos h
  exact fromFindings_ne_pass (mem_findings.mpr ⟨_, by simp [rules], hfires⟩) Nat.zero_lt_one

/-! ## Keywords -/

theorem isAlphanum_toLower {c : Char} (h : c.isAlphanum = true) : c.toLower.isAlphanum = true := by
  unfold Char.isAlphanum at h ⊢
  rw [Char.isAlpha_toLower_eq_isAlpha]
  rcases Bool.or_eq_true _ _ |>.mp h with halpha | hdigit
  · rw [halpha, Bool.true_or]
  · have hupper : ¬ c.isUpper = true := by
      intro hupper
      simp only [Char.isDigit, Char.isUpper, Bool.and_eq_true, decide_eq_true_eq] at hdigit hupper
      exact absurd (UInt32.le_trans hupper.1 hdigit.2) (by decide)
    rw [Char.toLower_eq_of_not_isUpper hupper, hdigit, Bool.or_true]

/-- The keywords are made of letters and digits. -/
theorem isAlphanum_of_mem_keywords {members : List FlaggedTrace} {w : String}
    (hw : w ∈ mineKeywords members) : w.toList.all Char.isAlphanum = true := by
  unfold mineKeywords at hw
  dsimp only at hw
  obtain ⟨pair, hpair, rfl⟩ := List.mem_map.mp hw
  have hcounted := (List.mem_insertionSort MoreFrequent).mp (List.mem_of_mem_take hpair)
  obtain ⟨v, hv, rfl⟩ := List.mem_map.mp hcounted
  obtain ⟨m, -, hv⟩ := List.mem_flatMap.mp (mem_sortDedup.mp hv)
  have htoken : ∀ text, v ∈ tokenise text → v.toList.all Char.isAlphanum = true := by
    intro text htoken
    obtain ⟨tok, htok, hsome⟩ := List.mem_filterMap.mp htoken
    dsimp only at hsome
    split at hsome
    · cases hsome
    · cases hsome
      rw [String.toList_ofList, List.all_eq_true]
      intro c hc
      obtain ⟨d, hd, rfl⟩ := List.mem_map.mp hc
      refine isAlphanum_toLower ?_
      simpa using forall_of_mem_splitOnP htok d hd
  exact (List.mem_append.mp hv).elim (htoken _) (htoken _)

/-- The blanks of a text are not followed by an `a`. -/
def NoWordWithA (cs : List Char) : Prop := cs.IsChain fun c d => ¬ (c = ' ' ∧ d = 'a')

/-- A hint with a keyword has an anchor. -/
theorem anchored {w : String} (hw : w.toList.all Char.isAlphanum = true) :
    unanchored ("forbid when input contains " ++ ("\"" ++ w ++ "\"")) = false := by
  have htext : ("forbid when input contains " ++ ("\"" ++ w ++ "\"")).toList
      = "forbid when input contains \"".toList ++ (w.toList ++ ['"']) := by
    simp
  unfold unanchored isBlank
  rw [htext, Bool.or_eq_false_iff]
  constructor
  · rw [List.all_append, Bool.and_eq_false_iff]
    exact .inl (by decide)
  · rw [decide_eq_false_iff_not]
    intro hinfix
    have hrest : NoWordWithA (lowercase (w.toList ++ ['"'])) := by
      refine (List.pairwise_of_forall_mem_list fun c hc d _ h => ?_).isChain
      obtain ⟨b, hb, rfl⟩ := List.mem_map.mp hc
      rcases List.mem_append.mp hb with hb | hb
      · have halnum := isAlphanum_toLower (List.all_eq_true.mp hw b hb)
        rw [h.1] at halnum
        exact absurd halnum (by decide)
      · rw [List.mem_singleton.mp hb] at h
        exact absurd h.1 (by decide)
    have hchain : NoWordWithA (lowercase ("forbid when input contains \"".toList
        ++ (w.toList ++ ['"']))) := by
      unfold lowercase NoWordWithA
      rw [List.map_append, List.isChain_append]
      refine ⟨by decide, hrest, fun c hc d _ h => ?_⟩
      rw [h.1] at hc
      exact absurd hc (by decide)
    have hwords := List.IsChain.infix hchain hinfix
    exact absurd hwords (by decide)

/-- **What blocks a cluster**: too few traces, or no keyword where its signal needs one. -/
theorem blocked_hypothesize (hdebug : ∀ w : String, w.toList.all Char.isAlphanum = true →
    debug w = "\"" ++ w ++ "\"") (hc : c ∈ cluster blake3 traces) :
    (critique (hypothesize debug blake3 c)).verdict = .block ↔ c.size < 3 ∨ c.keywords = []
      ∧ (c.signal = .contractViolation ∨ c.signal = .humanOverride) := by
  have hwords : ∀ w ∈ c.keywords, w.toList.all Char.isAlphanum = true := by
    obtain ⟨t, -, rfl⟩ := (mem_cluster blake3).mp hc
    exact fun w hw => isAlphanum_of_mem_keywords hw
  rw [blocked_iff]
  refine or_congr Iff.rfl ?_
  show suggestAction debug c = _ ∨ (∃ hint, suggestAction debug c = _ ∧ _) ↔ _
  unfold suggestAction
  cases hsignal : c.signal with
  | escalation => simp
  | complaint => simp
  | other text => simp
  | refundGranted =>
      dsimp only
      split <;> simp
  | humanOverride => simp
  | contractViolation =>
      cases hkeywords : c.keywords with
      | nil =>
          simp only [List.head?_nil]
          refine ⟨fun _ => ⟨trivial, .inl trivial⟩, fun _ => .inr ⟨_, rfl, by decide⟩⟩
      | cons w rest =>
          have hw : w.toList.all Char.isAlphanum = true :=
            hwords w (by rw [hkeywords]; exact List.mem_cons_self)
          have hhint := anchored hw
          rw [← hdebug w hw] at hhint
          simp [hhint]

/-- **The verdicts of an audit**: no cluster passes, and what is blocked is seen from it. -/
theorem audit_verdicts (hdebug : ∀ w : String, w.toList.all Char.isAlphanum = true →
    debug w = "\"" ++ w ++ "\"") (traces : List FlaggedTrace) :
    (audit blake3 debug traces).critiques.map (·.verdict)
      = (audit blake3 debug traces).clusters.map fun c =>
          if c.size < 3 ∨ c.keywords = []
            ∧ (c.signal = .contractViolation ∨ c.signal = .humanOverride) then .block
          else .warn := by
  unfold audit
  dsimp only
  rw [List.map_map, List.map_map]
  refine List.map_congr_left fun c hc => ?_
  have hblocked := blocked_hypothesize blake3 debug hdebug hc
  have hpassed := not_passed (hypothesize debug blake3 c) rfl
  show (critique (hypothesize debug blake3 c)).verdict = _
  split
  · exact hblocked.mpr ‹_›
  · cases hverdict : (critique (hypothesize debug blake3 c)).verdict with
    | pass => exact absurd hverdict hpassed
    | warn => rfl
    | block => exact absurd (hblocked.mp hverdict) ‹_›

/-- Rust's escape of a keyword puts it in quotes. -/
theorem audit_verdicts_quoted : (audit id (fun w => "\"" ++ w ++ "\"")
      [⟨"t1", "classify", .humanOverride, "", ""⟩]).critiques.map (·.verdict) = [.block] :=
  (audit_verdicts id _ (fun _ _ => rfl) _).trans (by decide)

end Agenomic.Governance
