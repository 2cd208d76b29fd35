import Agenomic.Connector.ClaudeSettings

/-!
# The block in a TOML file

The block begins and ends with markers that stand in lines of their own. What is put in front of it
ends with an empty line, and what is left when it is cut out ends with one newline.

**`lossless`**: to install twice is to install once, and to uninstall after an installation leaves
what an uninstall leaves: the file without the hooks that are recognised, which is the file itself
where there were none, up to empty containers and trailing newlines. No other hook is removed, and
none changes its place.
-/

namespace Agenomic.Connector

open Redact

namespace HooksInstall

variable (env : Install)

/-! ## Finding the block -/

/-- An occurrence at the front of a line does not reach its end. -/
theorem prefix_of_prefix_line {word line rest : JsText} (hword : 10 ∉ word)
    (h : word <+: line ++ 10 :: rest) : word <+: line := by
  rcases List.prefix_or_prefix_of_prefix h (List.prefix_append line _) with hshort | hlong
  · exact hshort
  · obtain ⟨tail, rfl⟩ := hlong
    have htail : tail <+: 10 :: rest := (List.prefix_append_right_inj line).mp h
    cases tail with
    | nil => rw [List.append_nil]
    | cons v tail =>
        obtain ⟨rfl, -⟩ := List.cons_prefix_cons.mp htail
        exact absurd (List.mem_append_right _ List.mem_cons_self) hword

theorem breakAt_prefix {word s : JsText} (h : word <+: s) : breakAt word s = some ([], s) := by
  cases s with
  | nil =>
      unfold breakAt
      rw [if_pos (List.prefix_nil.mp h)]
  | cons u rest =>
      unfold breakAt
      rw [if_pos (List.isPrefixOf_iff_prefix.mpr h)]

/-- A line without the word is passed over, with its end. -/
theorem breakAt_line {word rest : JsText} (hword : 10 ∉ word) :
    ∀ {line : JsText}, ¬ word <:+: line →
      breakAt word (line ++ 10 :: rest)
        = (breakAt word rest).map fun p => (line ++ 10 :: p.1, p.2)
  | [], h => by
      have hpre : ¬ word <+: 10 :: rest := by
        intro hpre
        have hnil : word <+: [] := @prefix_of_prefix_line _ _ rest hword hpre
        exact h hnil.isInfix
      rw [List.nil_append, breakAt, if_neg fun hp => hpre (List.isPrefixOf_iff_prefix.mp hp)]
      rfl
  | u :: line, h => by
      have hline : ¬ word <:+: line := fun hin => h (hin.trans (List.suffix_cons u line).isInfix)
      have hpre : ¬ word <+: u :: (line ++ 10 :: rest) := by
        intro hpre
        have hfront : word <+: u :: line := @prefix_of_prefix_line _ _ rest hword hpre
        exact h hfront.isInfix
      rw [List.cons_append, breakAt, if_neg fun hp => hpre (List.isPrefixOf_iff_prefix.mp hp),
        breakAt_line hword hline, Option.map_map]
      rfl

/-- Lines, each with its end. -/
def ended (lines : List JsText) : JsText := lines.flatMap fun line => line ++ [10]

theorem breakAt_ended {word rest : JsText} (hword : 10 ∉ word) : ∀ {lines : List JsText},
    (∀ line ∈ lines, ¬ word <:+: line) →
      breakAt word (ended lines ++ rest)
        = (breakAt word rest).map fun p => (ended lines ++ p.1, p.2)
  | [], _ => by
      simp [ended]
  | line :: lines, h => by
      have hsplit : ended (line :: lines) ++ rest = line ++ 10 :: (ended lines ++ rest) := by
        simp [ended]
      rw [hsplit, breakAt_line hword (h line List.mem_cons_self),
        breakAt_ended hword fun l hl => h l (List.mem_cons_of_mem _ hl), Option.map_map]
      congr 1
      funext p
      simp [ended]

/-! ## The block -/

theorem js_newline : js "\n" = [10] := by decide

theorem ended_append (xs ys : List JsText) : ended (xs ++ ys) = ended xs ++ ended ys :=
  List.flatMap_append

theorem joinLines_append_nil : ∀ {lines : List JsText}, joinLines (lines ++ [[]]) = ended lines
  | [] => rfl
  | line :: lines => by
      have ih := @joinLines_append_nil lines
      unfold joinLines at ih ⊢
      rw [List.cons_append, List.intercalate_cons_of_ne_nil (by simp), ih, js_newline]
      rfl

theorem codexBlock_eq (failMode : Hook.FailMode) (timeoutSec : Nat)
    (trust : List (JsText × JsText)) :
    codexBlock env failMode timeoutSec trust
      = ended ([blockStart] ++ blockLines env failMode timeoutSec trust) ++ (blockEnd ++ [10]) := by
  have hlines : [blockStart] ++ blockLines env failMode timeoutSec trust ++ [blockEnd, []]
      = ([blockStart] ++ blockLines env failMode timeoutSec trust ++ [blockEnd]) ++ [[]] :=
    (List.append_assoc _ [blockEnd] [[]]).symm
  have hlast : ended [blockEnd] = blockEnd ++ [10] := List.append_nil _
  rw [codexBlock, hlines, joinLines_append_nil, ended_append, hlast]

/-- No line of the block has the text of the end marker in it: no path, and no trusted key. -/
def NoEndMarker (failMode : Hook.FailMode) (timeoutSec : Nat) (trust : List (JsText × JsText)) :
    Prop :=
  ∀ line ∈ blockLines env failMode timeoutSec trust, ¬ blockEnd <:+: line

theorem blockStart_prefix_codexBlock (failMode : Hook.FailMode) (timeoutSec : Nat)
    (trust : List (JsText × JsText)) :
    blockStart <+: codexBlock env failMode timeoutSec trust := by
  rw [codexBlock_eq, ended_append, ended, List.flatMap_singleton, List.append_assoc,
    List.append_assoc]
  exact List.prefix_append _ _

/-- The block ends where it is meant to end. -/
theorem breakAt_blockEnd {failMode : Hook.FailMode} {timeoutSec : Nat}
    {trust : List (JsText × JsText)} (h : NoEndMarker env failMode timeoutSec trust) :
    breakAt blockEnd (codexBlock env failMode timeoutSec trust)
      = some (ended ([blockStart] ++ blockLines env failMode timeoutSec trust),
          blockEnd ++ [10]) := by
  have hword : (10 : UInt16) ∉ blockEnd := by decide
  have hstart : ¬ blockEnd <:+: blockStart := by decide +kernel
  have hlines : ∀ line ∈ [blockStart] ++ blockLines env failMode timeoutSec trust,
      ¬ blockEnd <:+: line := by
    intro line hline
    rcases List.mem_append.mp hline with hfirst | hrest
    · rw [List.mem_singleton.mp hfirst]
      exact hstart
    · exact h line hrest
  rw [codexBlock_eq, breakAt_ended hword hlines, breakAt_prefix (List.prefix_append _ _),
    Option.map_some, List.append_nil]

/-! ## Newlines at the end -/

theorem dropNewlines_append (s : JsText) (u : UInt16) :
    dropNewlines (s ++ [u]) = if isNewline u then dropNewlines s else s ++ [u] := by
  unfold dropNewlines
  rw [List.reverse_append, List.reverse_singleton, List.singleton_append, List.dropWhile_cons]
  split
  · rfl
  · rw [List.reverse_cons, List.reverse_reverse]

theorem dropNewlines_newline (s : JsText) : dropNewlines (s ++ [10]) = dropNewlines s :=
  dropNewlines_append s 10

theorem dropNewlines_dropNewlines (s : JsText) :
    dropNewlines (dropNewlines s) = dropNewlines s := by
  unfold dropNewlines
  rw [List.reverse_reverse, List.dropWhile_idempotent]

/-- What is left has no newline at its end. -/
theorem getLast?_dropNewlines (s : JsText) : (dropNewlines s).getLast? ≠ some 10 := by
  intro h
  unfold dropNewlines at h
  rw [List.getLast?_reverse] at h
  have hhead := List.head?_dropWhile_not isNewline s.reverse
  rw [h] at hhead
  exact absurd hhead (by decide)

theorem all_isNewline_append {s : JsText} (hne : dropNewlines s ≠ []) :
    (dropNewlines s ++ [10]).all isNewline = false := by
  obtain ⟨u, hu⟩ : ∃ u, (dropNewlines s).getLast? = some u :=
    Option.isSome_iff_exists.mp (by rw [List.getLast?_isSome]; exact hne)
  have hnot : isNewline u = false := by
    rw [← Bool.not_eq_true]
    intro hnew
    exact getLast?_dropNewlines s (by rw [hu, eq_of_beq hnew])
  rw [← Bool.not_eq_true, List.all_eq_true]
  intro hall
  have hyes := hall u (List.mem_append_left _ (List.mem_of_getLast? hu))
  rw [hnot] at hyes
  cases hyes

/-- A text before the block: it ends with an empty line, unless it is empty. -/
def joined (text : JsText) : JsText :=
  (if text ≠ [] ∧ text.getLast? ≠ some 10 then text ++ js "\n" else text)
    ++ (if text ≠ [] then js "\n" else [])

/-- A text with one newline at its end, if there is anything before it. -/
def settled (text : JsText) : JsText :=
  if dropNewlines text = [] then [] else dropNewlines text ++ [10]

theorem joined_eq {text : JsText} (hne : text ≠ []) :
    joined text = text ++ [10] ∧ text.getLast? = some 10
      ∨ joined text = text ++ [10] ++ [10] ∧ text.getLast? ≠ some 10 := by
  unfold joined
  rw [if_pos hne, js_newline]
  by_cases hlast : text.getLast? = some 10
  · exact .inl ⟨by rw [if_neg (fun h => h.2 hlast)], hlast⟩
  · exact .inr ⟨by rw [if_pos ⟨hne, hlast⟩], hlast⟩

theorem noOnlyNewlines_joined (text : JsText) :
    noOnlyNewlines (oneNewline (joined text)) = settled text := by
  by_cases hne : text = []
  · subst hne
    rfl
  · have hone : oneNewline (joined text) = dropNewlines text ++ [10] := by
      unfold oneNewline
      rcases joined_eq hne with ⟨h, _⟩ | ⟨h, _⟩
      · rw [h, if_pos List.getLast?_concat, dropNewlines_newline, js_newline]
      · rw [h, if_pos List.getLast?_concat, dropNewlines_newline, dropNewlines_newline, js_newline]
    rw [hone]
    unfold noOnlyNewlines settled
    by_cases hdrop : dropNewlines text = []
    · rw [if_pos hdrop, hdrop]
      rfl
    · rw [if_neg hdrop, all_isNewline_append hdrop, if_neg Bool.false_ne_true]

/-- Removing the block from a text that it was put behind. -/
theorem stripBlock_joined {failMode : Hook.FailMode} {timeoutSec : Nat}
    {trust : List (JsText × JsText)} {text : JsText}
    (hmarker : NoEndMarker env failMode timeoutSec trust) (h : ¬ blockStart <:+: text) :
    stripBlock (joined text ++ codexBlock env failMode timeoutSec trust) = some (settled text) := by
  have hword : (10 : UInt16) ∉ blockStart := by decide
  have hnil : ¬ blockStart <:+: [] := by decide
  have hfound := breakAt_prefix (blockStart_prefix_codexBlock env failMode timeoutSec trust)
  have hstart : breakAt blockStart (joined text ++ codexBlock env failMode timeoutSec trust)
      = some (joined text, codexBlock env failMode timeoutSec trust) := by
    by_cases hne : text = []
    · subst hne
      exact hfound
    · rcases joined_eq hne with ⟨heq, _⟩ | ⟨heq, _⟩
      · rw [heq, List.append_assoc, List.singleton_append, breakAt_line hword h, hfound]
        rfl
      · have hempty := @breakAt_line _ (codexBlock env failMode timeoutSec trust) hword [] hnil
        rw [heq, List.append_assoc, List.append_assoc, List.singleton_append,
          List.singleton_append, breakAt_line hword h, ← List.nil_append (10 :: codexBlock _ _ _ _),
          hempty, hfound]
        simp
  have hrest : ((blockEnd ++ [10]).drop blockEnd.length).dropWhile isNewline = [] := by
    rw [List.drop_left]
    rfl
  unfold stripBlock
  rw [hstart]
  dsimp only
  rw [breakAt_blockEnd env hmarker, Option.map_some, hrest, List.append_nil, noOnlyNewlines_joined]

/-! ## The configuration file -/

theorem definesHooksTable_newline (s : JsText) :
    definesHooksTable (s ++ [10]) = definesHooksTable s := by
  have hend : isLineEnd 10 = true := by decide
  have hempty : (trim [] == js "[hooks]") = false := by decide
  unfold definesHooksTable linesOf
  rw [List.splitOnP_append_cons s [] hend, List.any_append, List.splitOnP_nil, List.any_cons,
    hempty]
  simp

theorem definesHooksTable_dropNewlines (s : JsText) :
    definesHooksTable (dropNewlines s) = definesHooksTable s := by
  induction s using List.reverseRecOn with
  | nil => rfl
  | append_singleton s u ih =>
      rw [dropNewlines_append]
      by_cases hu : isNewline u = true
      · rw [if_pos hu, ih, eq_of_beq hu, definesHooksTable_newline]
      · rw [if_neg hu]

theorem definesHooksTable_settled (s : JsText) :
    definesHooksTable (settled s) = definesHooksTable s := by
  unfold settled
  rw [← definesHooksTable_dropNewlines s]
  split
  · rename_i hnil
    rw [hnil]
  · exact definesHooksTable_newline _

theorem planCodex_eq {failMode : Hook.FailMode} {trust : List (JsText × JsText)} {timeoutSec : Nat}
    {before left : JsText} (hstrip : stripBlock before = some left)
    (htable : definesHooksTable left = false) (install : Bool) :
    planCodex env failMode install trust timeoutSec before
      = some (if install then joined left ++ codexBlock env failMode timeoutSec trust
          else left) := by
  unfold planCodex
  rw [hstrip]
  simp only [Option.bind_eq_bind, Option.bind_some, htable, joined]
  cases install <;> rfl

/-- What a text has in front of the end: nothing at all, or no more than one newline. -/
def EndsPlainly (text : JsText) : Prop :=
  text = [] ∨ dropNewlines text ≠ []
    ∧ (text = dropNewlines text ∨ text = dropNewlines text ++ [10])

theorem joined_settled {text : JsText} (h : EndsPlainly text) :
    joined (settled text) = joined text := by
  have hdropped : ∀ {d : JsText}, d ≠ [] → d.getLast? ≠ some 10 → joined d = d ++ [10] ++ [10] := by
    intro d hne hlast
    rcases joined_eq hne with ⟨_, hend⟩ | ⟨heq, _⟩
    · exact absurd hend hlast
    · exact heq
  have hended : ∀ d : JsText, joined (d ++ [10]) = d ++ [10] ++ [10] := by
    intro d
    rcases @joined_eq (d ++ [10]) (by simp) with ⟨heq, _⟩ | ⟨_, hlast⟩
    · exact heq
    · exact absurd List.getLast?_concat hlast
  rcases h with rfl | ⟨hne, hplain | hone⟩
  · rfl
  · have hlast := getLast?_dropNewlines text
    rw [settled, if_neg hne, hended, ← hplain]
    rw [← hplain] at hne hlast
    exact (hdropped hne hlast).symm
  · rw [settled, if_neg hne, ← hone]

theorem breakAt_spec {word : JsText} : ∀ {s : JsText} {p : JsText × JsText},
    breakAt word s = some p → s = p.1 ++ p.2 ∧ word <+: p.2
  | [], p, h => by
      unfold breakAt at h
      split at h
      · rename_i hnil
        rw [← Option.some_inj.mp h, hnil]
        exact ⟨rfl, List.prefix_refl _⟩
      · cases h
  | u :: rest, p, h => by
      unfold breakAt at h
      split at h
      · rename_i hpre
        rw [← Option.some_inj.mp h]
        exact ⟨rfl, List.isPrefixOf_iff_prefix.mp hpre⟩
      · obtain ⟨q, hq, rfl⟩ := Option.map_eq_some_iff.mp h
        obtain ⟨hsplit, hword⟩ := breakAt_spec hq
        exact ⟨by rw [hsplit]; rfl, hword⟩

def content (s : JsText) : JsText := s.filter fun u => !isNewline u

theorem content_append (s t : JsText) : content (s ++ t) = content s ++ content t :=
  List.filter_append s t

theorem content_dropWhile : ∀ s : JsText, content (s.dropWhile isNewline) = content s
  | [] => rfl
  | u :: s => by
      rw [List.dropWhile_cons]
      split
      · rename_i hu
        rw [content_dropWhile s, content, content, List.filter_cons, hu]
        rfl
      · rfl

theorem content_reverse (s : JsText) : content s.reverse = (content s).reverse :=
  List.filter_reverse

theorem content_oneNewline (s : JsText) : content (oneNewline s) = content s := by
  unfold oneNewline
  split
  · have hnone : content (js "\n") = [] := by decide
    rw [content_append, hnone, List.append_nil, dropNewlines, content_reverse, content_dropWhile,
      content_reverse, List.reverse_reverse]
  · rfl

theorem content_noOnlyNewlines (s : JsText) : content (noOnlyNewlines s) = content s := by
  unfold noOnlyNewlines
  split
  · rename_i hall
    refine (List.filter_eq_nil_iff.mpr fun u hu => ?_).symm
    rw [List.all_eq_true.mp hall u hu]
    decide
  · rfl

/-- What stands outside of the block is kept, up to the newlines around the block. -/
def Cut (text left : JsText) : Prop :=
  ∃ head cut tail, text = head ++ cut ++ tail ∧ content left = content (head ++ tail)
    ∧ (left = text ∨ blockStart <+: cut ++ tail ∧ blockEnd <:+ cut)

theorem cut_of_stripBlock {text left : JsText} (h : stripBlock text = some left) :
    Cut text left := by
  unfold stripBlock at h
  cases hstart : breakAt blockStart text with
  | none =>
      rw [hstart] at h
      have hsame := Option.some_inj.mp h
      exact ⟨text, [], [], by simp, by rw [hsame, List.append_nil], .inl hsame.symm⟩
  | some p =>
      obtain ⟨head, rest⟩ := p
      rw [hstart] at h
      obtain ⟨⟨mid, tail⟩, hend, hleft⟩ := Option.map_eq_some_iff.mp h
      obtain ⟨htext, hpre⟩ := breakAt_spec hstart
      obtain ⟨hrest, tail, rfl⟩ := breakAt_spec hend
      dsimp only at htext hrest hpre hleft
      refine ⟨head, mid ++ blockEnd, tail, ?_, ?_, .inr ⟨?_, List.suffix_append _ _⟩⟩
      · rw [htext, hrest, List.append_assoc, List.append_assoc]
      · rw [← hleft, content_noOnlyNewlines, content_append, content_oneNewline,
          content_dropWhile, List.drop_left, content_append]
      · rw [List.append_assoc, ← hrest]
        exact hpre

/-- What installing and uninstalling do to a text whose block is cut out to leave `left`. -/
structure CodexLossless (failMode : Hook.FailMode) (trust : List (JsText × JsText))
    (timeoutSec : Nat) (text left : JsText) : Prop where
  kept : Cut text left
  undone : ∃ once out, planCodex env failMode true trust timeoutSec text = some once
    ∧ planCodex env failMode false trust timeoutSec once = some out
    ∧ dropNewlines out = dropNewlines left
  twice : EndsPlainly left → ∃ once,
    planCodex env failMode true trust timeoutSec text = some once
      ∧ planCodex env failMode true trust timeoutSec once = some once

theorem dropNewlines_settled (s : JsText) : dropNewlines (settled s) = dropNewlines s := by
  unfold settled
  split
  · rename_i hnil
    rw [hnil]
    rfl
  · rw [dropNewlines_newline, dropNewlines_dropNewlines]

theorem stripBlock_of_planCodex {failMode : Hook.FailMode} {trust : List (JsText × JsText)}
    {timeoutSec : Nat} {text left : JsText}
    (h : planCodex env failMode false trust timeoutSec text = some left) :
    stripBlock text = some left ∧ definesHooksTable left = false := by
  unfold planCodex at h
  cases hstrip : stripBlock text with
  | none =>
      rw [hstrip] at h
      cases h
  | some after =>
      rw [hstrip] at h
      simp only [Option.bind_eq_bind, Option.bind_some] at h
      split at h
      · cases h
      · rename_i htable
        rw [if_neg Bool.false_ne_true] at h
        have hsame := Option.some_inj.mp h
        rw [← hsame]
        exact ⟨rfl, Bool.not_eq_true _ ▸ htable⟩

theorem codexLossless {failMode : Hook.FailMode} {trust : List (JsText × JsText)}
    {timeoutSec : Nat} {text left : JsText} (hmarker : NoEndMarker env failMode timeoutSec trust)
    (hleft : planCodex env failMode false trust timeoutSec text = some left)
    (hone : ¬ blockStart <:+: left) :
    CodexLossless env failMode trust timeoutSec text left := by
  obtain ⟨hstrip, htable⟩ := stripBlock_of_planCodex env hleft
  have honce := @planCodex_eq env failMode trust timeoutSec _ _ hstrip htable true
  have hagain := @planCodex_eq env failMode trust timeoutSec _ _
    (stripBlock_joined env hmarker hone) ((definesHooksTable_settled left).trans htable)
  refine ⟨cut_of_stripBlock hstrip, ⟨_, _, honce, hagain false, dropNewlines_settled left⟩,
    fun hplain => ⟨_, honce, ?_⟩⟩
  rw [if_pos rfl, hagain true, if_pos rfl, joined_settled hplain]

/-- **Hooks are installed and removed without loss.** -/
theorem lossless (failMode : Hook.FailMode) :
    (∀ s : Settings, ClaudeLossless env failMode s)
      ∧ ∀ (trust : List (JsText × JsText)) (timeoutSec : Nat) (text left : JsText),
          NoEndMarker env failMode timeoutSec trust →
          planCodex env failMode false trust timeoutSec text = some left →
          ¬ blockStart <:+: left → CodexLossless env failMode trust timeoutSec text left :=
  ⟨claudeLossless env failMode, fun _ _ _ _ hmarker hleft hone =>
    codexLossless env hmarker hleft hone⟩

def usual : Install where
  execPath := js "/usr/bin/node"
  packageDir := js "/opt/agenomic"
  socket := js "/run/agenomic.sock"

theorem lossless_usual : ∃ once,
    planCodex usual .local true [] 600 (js "model = \"m\"\n") = some once
      ∧ planCodex usual .local true [] 600 once = some once := by
  refine ((lossless usual .local).2 [] 600 (js "model = \"m\"\n") (js "model = \"m\"\n") ?_ ?_
    ?_).twice (.inr ?_)
  · unfold NoEndMarker
    decide +kernel
  · decide
  · decide
  · decide

/-- Settings that an installation left. -/
def installedBefore : Settings where
  members := [(js "hooks", .object [(js "Stop", .array [ownEntry usual .local (js "Stop")])])]
  hooks := [(js "Stop", .array [ownEntry usual .local (js "Stop")])]
  hooks_eq := .inr List.lookup_cons_self
  nodup := List.nodup_singleton _
  arrays := by
    intro m hm
    rw [List.mem_singleton.mp hm]
    exact ⟨_, rfl⟩

/-- Hooks that were there before are not there again after an installation and its removal. -/
theorem not_undone : ¬ ∀ (env : Install) (failMode : Hook.FailMode) (s : Settings),
    ∃ once left, planClaude env failMode true s.members = some once
      ∧ planClaude env failMode false once = some left
      ∧ withoutEmpty left = withoutEmpty s.members := by
  intro h
  obtain ⟨once, left, honce, hleft, hsame⟩ := h usual .local installedBefore
  have hgone : (((planClaude usual .local true installedBefore.members).bind
      (planClaude usual .local false)).map fun left =>
        ((withoutEmpty left).lookup (js "hooks")).isNone) = some true := by
    decide +kernel
  have hthere : ((withoutEmpty installedBefore.members).lookup (js "hooks")).isNone = false := by
    decide
  rw [honce, Option.bind_some, hleft, Option.map_some, hsame, hthere] at hgone
  cases hgone

end HooksInstall

end Agenomic.Connector
