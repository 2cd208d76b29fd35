import Agenomic.Connector.HooksInstall

/-!
# Hooks in JSON settings

An event is planned after the other: the entries of each lose the hooks that are recognised, and an
installation puts one entry behind them. Over a list of events without repetitions this maps the
members that are there and appends those that are not (`foldl_install`), or filters them
(`foldl_uninstall`).

**`claudeLossless`**: so a second installation changes nothing, and an uninstall leaves the same
with an installation before it as without. Hooks that are not recognised are kept in their order.
-/

namespace Agenomic.Connector

open Redact

namespace HooksInstall

variable (env : Install)

/-! ## Members that are set and deleted -/

theorem mem_names {m : JsText × JsValue} {members : Members} (h : m ∈ members) :
    m.1 ∈ names members := List.mem_map_of_mem h

theorem names_append (xs ys : Members) : names (xs ++ ys) = names xs ++ names ys :=
  List.map_append

theorem lookup_eq_none_iff {name : JsText} : ∀ {members : Members},
    members.lookup name = none ↔ name ∉ names members
  | [] => ⟨fun _ => List.not_mem_nil, fun _ => rfl⟩
  | (k, v) :: rest => by
      unfold names
      rw [List.lookup_cons, List.map_cons, List.mem_cons, not_or, ← names]
      by_cases h : name = k
      · rw [beq_iff_eq.mpr h]
        exact ⟨fun hsome => (by cases hsome), fun hne => absurd h hne.1⟩
      · rw [beq_eq_false_iff_ne.mpr h, lookup_eq_none_iff]
        exact ⟨fun hrest => ⟨h, hrest⟩, fun hrest => hrest.2⟩

theorem lookup_setMember_self (name : JsText) (v : JsValue) : ∀ members : Members,
    (JsValue.setMember name v members).lookup name = some v
  | [] => List.lookup_cons_self
  | (k, w) :: rest => by
      unfold JsValue.setMember
      by_cases h : k = name
      · rw [if_pos h, h]
        exact List.lookup_cons_self
      · rw [if_neg h, List.lookup_cons, beq_eq_false_iff_ne.mpr (Ne.symm h)]
        exact lookup_setMember_self name v rest

theorem lookup_setMember_ne {name other : JsText} (hne : other ≠ name) (v : JsValue) :
    ∀ members : Members, (JsValue.setMember name v members).lookup other = members.lookup other
  | [] => by
      rw [JsValue.setMember, List.lookup_cons, beq_eq_false_iff_ne.mpr hne]
  | (k, w) :: rest => by
      unfold JsValue.setMember
      by_cases h : k = name
      · rw [if_pos h, List.lookup_cons, List.lookup_cons, h, beq_eq_false_iff_ne.mpr hne]
      · rw [if_neg h, List.lookup_cons, List.lookup_cons, lookup_setMember_ne hne v rest]

theorem setMember_setMember (name : JsText) (v w : JsValue) : ∀ members : Members,
    JsValue.setMember name v (JsValue.setMember name w members) = JsValue.setMember name v members
  | [] => if_pos rfl
  | (k, x) :: rest => by
      by_cases h : k = name
      · rw [JsValue.setMember, if_pos h, JsValue.setMember, if_pos h, JsValue.setMember, if_pos h]
      · simp only [JsValue.setMember, if_neg h, setMember_setMember name v w rest]

theorem deleteMember_setMember (name : JsText) (v : JsValue) : ∀ members : Members,
    deleteMember name (JsValue.setMember name v members) = deleteMember name members
  | [] => by simp [JsValue.setMember, deleteMember]
  | (k, x) :: rest => by
      have ih := deleteMember_setMember name v rest
      unfold deleteMember at ih ⊢
      by_cases h : k = name
      · simp [JsValue.setMember, h]
      · simp [JsValue.setMember, h, ih]

theorem deleteMember_of_notMem {name : JsText} {members : Members} (h : name ∉ names members) :
    deleteMember name members = members := by
  refine List.filter_eq_self.mpr fun m hm => ?_
  exact bne_iff_ne.mpr fun heq => h (heq ▸ mem_names hm)

theorem lookup_deleteMember_self (name : JsText) (members : Members) :
    (deleteMember name members).lookup name = none := by
  rw [lookup_eq_none_iff]
  intro h
  obtain ⟨m, hm, rfl⟩ := List.mem_map.mp h
  exact absurd rfl (bne_iff_ne.mp (List.mem_filter.mp hm).2)

theorem lookup_deleteMember_ne {name other : JsText} (hne : other ≠ name) : ∀ members : Members,
    (deleteMember name members).lookup other = members.lookup other
  | [] => rfl
  | (k, v) :: rest => by
      have ih := lookup_deleteMember_ne hne rest
      unfold deleteMember at ih ⊢
      by_cases h : k = name
      · simp [h, ih, List.lookup_cons, beq_eq_false_iff_ne.mpr hne]
      · simp [h, ih, List.lookup_cons]

/-! ## Entries without this tool's hooks -/

/-- The hooks of an entry. -/
def hooksOfEntry (entry : JsValue) : List JsValue := itemsOf (entry.member "hooks")

/-- The hooks of entries that are not recognised as this tool's, in their order. -/
def foreign (entries : List JsValue) : List JsValue :=
  entries.flatMap fun entry => (hooksOfEntry entry).filter fun hook => !isOurs hook

/-- An entry has a hook that is recognised. -/
def hasOurs (entry : JsValue) : Bool := (hooksOfEntry entry).any isOurs

theorem withoutOurs_of_not_hasOurs {entry : JsValue} (h : hasOurs entry = false) :
    withoutOurs entry = some entry := by
  unfold withoutOurs
  split
  · rename_i members
    split
    · rename_i hooks hlookup
      have hnone : hooks.any isOurs = false := by
        rw [← h, hasOurs, hooksOfEntry, JsValue.member, hlookup, itemsOf]
      rw [hnone]
      rfl
    · rfl
  · rfl

theorem withoutOurs_of_hasOurs {entry : JsValue} (h : hasOurs entry = true) :
    ∃ members, entry = .object members
      ∧ withoutOurs entry
        = let others := (hooksOfEntry entry).filter fun hook => !isOurs hook
          if others.isEmpty then none
          else some (.object (JsValue.setMember (js "hooks") (.array others) members)) := by
  cases entry with
  | object members =>
      refine ⟨members, rfl, ?_⟩
      unfold withoutOurs
      dsimp only
      cases hlookup : members.lookup (js "hooks") with
      | none =>
          rw [hasOurs, hooksOfEntry, JsValue.member, hlookup] at h
          cases h
      | some v =>
          cases v with
          | array hooks =>
              have hitems : hooksOfEntry (.object members) = hooks := by
                rw [hooksOfEntry, JsValue.member, hlookup, itemsOf]
              rw [hasOurs, hitems] at h
              dsimp only
              rw [if_pos h, hitems]
          | _ =>
              rw [hasOurs, hooksOfEntry, JsValue.member, hlookup] at h
              cases h
  | _ => cases h

theorem hooksOfEntry_setMember (members : Members) (hooks : List JsValue) :
    hooksOfEntry (.object (JsValue.setMember (js "hooks") (.array hooks) members)) = hooks := by
  rw [hooksOfEntry, JsValue.member, lookup_setMember_self, itemsOf]

theorem any_isOurs_filter (hooks : List JsValue) :
    (hooks.filter fun hook => !isOurs hook).any isOurs = false := by
  rw [← Bool.not_eq_true, List.any_eq_true]
  intro h
  obtain ⟨hook, hmem, hours⟩ := h
  have hnot := (List.mem_filter.mp hmem).2
  rw [hours] at hnot
  cases hnot

/-- What is left of an entry has no hook of this tool, and is left alone from then on. -/
theorem withoutOurs_settles {entry left : JsValue} (h : withoutOurs entry = some left) :
    hasOurs left = false := by
  cases hours : hasOurs entry with
  | false =>
      rw [withoutOurs_of_not_hasOurs hours] at h
      rw [← Option.some_inj.mp h]
      exact hours
  | true =>
      obtain ⟨members, -, hleft⟩ := withoutOurs_of_hasOurs hours
      rw [hleft] at h
      dsimp only at h
      split at h
      · cases h
      · rw [← Option.some_inj.mp h, hasOurs, hooksOfEntry_setMember]
        exact any_isOurs_filter _

/-- The entries an event is left with. -/
def cleaned (entries : List JsValue) : List JsValue := entries.filterMap withoutOurs

theorem cleaned_of_not_hasOurs {entries : List JsValue} (h : ∀ e ∈ entries, hasOurs e = false) :
    cleaned entries = entries := by
  unfold cleaned
  induction entries with
  | nil => rfl
  | cons e rest ih =>
      rw [List.filterMap_cons_some (withoutOurs_of_not_hasOurs (h e List.mem_cons_self)),
        ih fun e he => h e (List.mem_cons_of_mem _ he)]

theorem cleaned_cleaned (entries : List JsValue) : cleaned (cleaned entries) = cleaned entries := by
  refine cleaned_of_not_hasOurs fun e he => ?_
  obtain ⟨entry, -, hleft⟩ := List.mem_filterMap.mp he
  exact withoutOurs_settles hleft

theorem filter_not_isOurs_of_any {hooks : List JsValue} (h : hooks.any isOurs = false) :
    (hooks.filter fun hook => !isOurs hook) = hooks := by
  refine List.filter_eq_self.mpr fun hook hmem => ?_
  rw [Bool.not_eq_true', ← Bool.not_eq_true]
  exact fun hours => (List.any_eq_false.mp h) hook hmem hours

/-- No hook that is not recognised is dropped or moved. -/
theorem foreign_cleaned : ∀ entries : List JsValue, foreign (cleaned entries) = foreign entries
  | [] => rfl
  | e :: rest => by
      have ih := foreign_cleaned rest
      unfold foreign cleaned at ih ⊢
      rw [List.flatMap_cons]
      cases hours : hasOurs e with
      | false =>
          rw [List.filterMap_cons_some (withoutOurs_of_not_hasOurs hours), List.flatMap_cons, ih]
      | true =>
          obtain ⟨members, -, hleft⟩ := withoutOurs_of_hasOurs hours
          dsimp only at hleft
          split at hleft
          · rename_i hempty
            rw [List.filterMap_cons_none hleft, ih, List.isEmpty_iff.mp hempty, List.nil_append]
          · rw [List.filterMap_cons_some hleft, List.flatMap_cons, ih, hooksOfEntry_setMember,
              filter_not_isOurs_of_any (any_isOurs_filter _)]

/-! ## This tool's own entry -/

theorem isInfix_mark_bin : mark <:+: shellQuote env.bin := by
  have hquoted : (js "/bin/agenomic-connector.mjs").flatMap
      (fun u => if u = 39 then js "'\\''" else [u]) = js "/bin/agenomic-connector.mjs" := by
    decide
  have hmark : mark <:+: js "/bin/agenomic-connector.mjs" := by decide
  unfold shellQuote Install.bin
  rw [List.flatMap_append, hquoted, List.append_assoc]
  refine hmark.trans (List.IsInfix.trans ?_ (List.suffix_append _ _).isInfix)
  exact ⟨_, _, rfl⟩

theorem isInfix_hookCommand (runtime : Hook.Runtime) (failMode : Hook.FailMode) (deadlineMs : Nat) :
    mark <:+: hookCommand env runtime failMode deadlineMs
      ∧ hookWord <:+: hookCommand env runtime failMode deadlineMs := by
  unfold hookCommand
  simp only [List.append_assoc]
  constructor
  · exact ((isInfix_mark_bin env).trans (List.infix_append' _ _ _)).trans
      (List.suffix_append _ _).isInfix
  · refine List.IsInfix.trans ?_ (List.suffix_append _ _).isInfix
    exact (List.infix_append' _ hookWord _).trans (List.suffix_append _ _).isInfix

/-- The command hook of an entry of this tool. -/
def ownHook (failMode : Hook.FailMode) (event : JsText) : JsValue :=
  .object
    [ (js "type", .string (js "command")),
      (js "command", .string
        (hookCommand env .claudeCode failMode (if isPre event then 590000 else 10000))),
      (js "timeout", .number (if isPre event then js "600" else js "15")) ]

theorem isOurs_ownHook (failMode : Hook.FailMode) (event : JsText) :
    isOurs (ownHook env failMode event) = true := by
  have htype : (js "command" == js "type") = false := by decide
  have hinfix := isInfix_hookCommand env .claudeCode failMode
    (if isPre event then 590000 else 10000)
  unfold isOurs ownHook JsValue.member
  dsimp only
  rw [List.lookup_cons, htype, List.lookup_cons_self]
  dsimp only
  unfold includes
  rw [decide_eq_true hinfix.1, decide_eq_true hinfix.2]
  rfl

theorem hooksOfEntry_ownEntry (failMode : Hook.FailMode) (event : JsText) :
    hooksOfEntry (ownEntry env failMode event) = [ownHook env failMode event] := by
  have hmatcher : (js "hooks" == js "matcher") = false := by decide
  unfold hooksOfEntry ownEntry JsValue.member
  dsimp only
  split
  · rw [List.cons_append, List.lookup_cons, hmatcher, List.nil_append, List.lookup_cons_self]
    rfl
  · rw [List.nil_append, List.lookup_cons_self]
    rfl

/-- What is installed is recognised, and nothing is left of it. -/
theorem withoutOurs_ownEntry (failMode : Hook.FailMode) (event : JsText) :
    withoutOurs (ownEntry env failMode event) = none := by
  have hours : hasOurs (ownEntry env failMode event) = true := by
    rw [hasOurs, hooksOfEntry_ownEntry, List.any_cons, isOurs_ownHook]
    rfl
  obtain ⟨members, -, hleft⟩ := withoutOurs_of_hasOurs hours
  rw [hleft, hooksOfEntry_ownEntry, List.filter_cons, isOurs_ownHook]
  rfl

theorem foreign_ownEntry (failMode : Hook.FailMode) (event : JsText) :
    foreign [ownEntry env failMode event] = [] := by
  rw [foreign, List.flatMap_singleton, hooksOfEntry_ownEntry, List.filter_cons, isOurs_ownHook]
  rfl

/-! ## The events one after the other -/

-- The membership tests below share this instance by its name.
local instance lawfulJsText : LawfulBEq JsText := inferInstance

/-- What installing makes of a member for one of the events. -/
def dress (failMode : Hook.FailMode) (events : List JsText) (m : JsText × JsValue) :
    JsText × JsValue :=
  if m.1 ∈ events then
    (m.1, .array (cleaned (itemsOf (some m.2)) ++ [ownEntry env failMode m.1]))
  else m

/-- What uninstalling leaves of a member for one of the events. -/
def undress (events : List JsText) (m : JsText × JsValue) : Option (JsText × JsValue) :=
  if m.1 ∈ events then
    let entries := cleaned (itemsOf (some m.2))
    if entries.isEmpty then none else some (m.1, .array entries)
  else some m

def freshMember (failMode : Hook.FailMode) (event : JsText) : JsText × JsValue :=
  (event, .array [ownEntry env failMode event])

theorem setMember_eq_map {name : JsText} {v : JsValue} {f : JsText × JsValue → JsText × JsValue} :
    ∀ {hooks : Members}, (names hooks).Nodup → name ∈ names hooks →
      (∀ w, hooks.lookup name = some w → f (name, w) = (name, v)) →
      (∀ m : JsText × JsValue, m.1 ≠ name → f m = m) →
      JsValue.setMember name v hooks = hooks.map f
  | [], _, hmem, _, _ => absurd hmem List.not_mem_nil
  | (k, w) :: rest, hnodup, hmem, hself, hother => by
      obtain ⟨hnot, hrest⟩ := List.nodup_cons.mp hnodup
      have hk : k ∉ names rest := hnot
      by_cases h : k = name
      · subst h
        have hsame : rest.map f = rest := by
          refine (List.map_congr_left fun m hm => hother m ?_).trans (List.map_id rest)
          exact fun heq => hk (heq ▸ mem_names hm)
        rw [JsValue.setMember, if_pos rfl, List.map_cons, hself w List.lookup_cons_self, hsame]
      · have hmem' : name ∈ names rest :=
          (List.mem_cons.mp hmem).resolve_left fun heq => h heq.symm
        rw [JsValue.setMember, if_neg h, List.map_cons, hother (k, w) h]
        congr 1
        refine setMember_eq_map hrest hmem' (fun x hx => hself x ?_) hother
        rw [List.lookup_cons, beq_eq_false_iff_ne.mpr (Ne.symm h), hx]

theorem setMember_of_notMem {name : JsText} (v : JsValue) : ∀ {hooks : Members},
    name ∉ names hooks → JsValue.setMember name v hooks = hooks ++ [(name, v)]
  | [], _ => rfl
  | (k, w) :: rest, h => by
      have hne : k ≠ name := fun heq => h (List.mem_cons.mpr (.inl heq.symm))
      have hrest : name ∉ names rest := fun hm => h (List.mem_cons_of_mem _ hm)
      rw [JsValue.setMember, if_neg hne, setMember_of_notMem v hrest]
      rfl

theorem names_map_dress (failMode : Hook.FailMode) (events : List JsText) (hooks : Members) :
    names (hooks.map (dress env failMode events)) = names hooks := by
  unfold names
  rw [List.map_map]
  refine List.map_congr_left fun m _ => ?_
  show (dress env failMode events m).1 = m.1
  unfold dress
  split <;> rfl

theorem dress_dress_of_notMem {failMode : Hook.FailMode} {event : JsText} {events : List JsText}
    (h : event ∉ events) (m : JsText × JsValue) :
    dress env failMode events (dress env failMode [event] m)
      = dress env failMode (event :: events) m := by
  by_cases hm : m.1 = event
  · have hnot : m.1 ∉ events := hm ▸ h
    simp [dress, hm, h]
  · simp [dress, hm]

/-- Installing event after event: the entries of each are cleaned and end with this tool's, and
the events that had none come behind. -/
theorem foldl_install (failMode : Hook.FailMode) : ∀ {events : List JsText} {hooks : Members},
    events.Nodup → (names hooks).Nodup →
    events.foldl (planEvent env failMode true) hooks
      = hooks.map (dress env failMode events)
        ++ (events.filter fun e => e ∉ names hooks).map (freshMember env failMode)
  | [], hooks, _, _ => by
      have hid : ∀ m ∈ hooks, dress env failMode [] m = id m := fun m _ => if_neg List.not_mem_nil
      rw [List.foldl_nil, List.filter_nil, List.map_nil, List.append_nil, List.map_congr_left hid,
        List.map_id]
  | event :: events, hooks, hevents, hnodup => by
      obtain ⟨hnot, hrest⟩ := List.nodup_cons.mp hevents
      have hset : planEvent env failMode true hooks event = JsValue.setMember event
          (.array (cleaned (itemsOf (hooks.lookup event)) ++ [ownEntry env failMode event]))
          hooks := by
        unfold planEvent setEvent installed cleaned
        dsimp only
        rw [if_pos rfl, if_neg (by simp)]
      rw [List.foldl_cons]
      by_cases hmem : event ∈ names hooks
      · have hstep : planEvent env failMode true hooks event
            = hooks.map (dress env failMode [event]) := by
          rw [hset]
          refine setMember_eq_map hnodup hmem (fun w hw => ?_) fun m hm => ?_
          · rw [hw]
            exact if_pos List.mem_cons_self
          · exact if_neg fun h => hm (List.mem_singleton.mp h)
        have hnames := names_map_dress env failMode [event] hooks
        rw [hstep, foldl_install failMode hrest (hnames ▸ hnodup), hnames, List.map_map,
          List.filter_cons_of_neg (by simpa using hmem)]
        congr 1
        exact List.map_congr_left fun m _ => dress_dress_of_notMem env hnot m
      · have hnone : hooks.lookup event = none := lookup_eq_none_iff.mpr hmem
        have hstep : planEvent env failMode true hooks event
            = hooks ++ [freshMember env failMode event] := by
          rw [hset, setMember_of_notMem _ hmem, hnone]
          rfl
        have hnames : names (hooks ++ [freshMember env failMode event])
            = names hooks ++ [event] := by
          unfold names
          rw [List.map_append]
          rfl
        have hnodup' : (names (hooks ++ [freshMember env failMode event])).Nodup := by
          rw [hnames]
          exact List.Nodup.append hnodup (List.nodup_singleton event)
            (List.disjoint_singleton.mpr hmem)
        have hfilter : (events.filter fun e => e ∉ names hooks ++ [event])
            = events.filter fun e => e ∉ names hooks := by
          refine List.filter_congr fun e he => ?_
          have hne : e ≠ event := fun heq => hnot (heq ▸ he)
          simp [hne]
        have hfresh : dress env failMode events (freshMember env failMode event)
            = freshMember env failMode event := if_neg hnot
        have hsame : hooks.map (dress env failMode events)
            = hooks.map (dress env failMode (event :: events)) := by
          refine List.map_congr_left fun m hm => ?_
          have hne : m.1 ≠ event := fun heq => hmem (heq ▸ mem_names hm)
          simp [dress, hne]
        rw [hstep, foldl_install failMode hrest hnodup', hnames, hfilter, List.map_append,
          List.map_singleton, hfresh, hsame, List.filter_cons_of_pos (by simpa using hmem),
          List.map_cons, List.append_assoc, List.singleton_append]

theorem lookup_of_mem {name : JsText} {v : JsValue} : ∀ {members : Members},
    (names members).Nodup → (name, v) ∈ members → members.lookup name = some v
  | [], _, h => absurd h List.not_mem_nil
  | (k, w) :: rest, hnodup, h => by
      obtain ⟨hnot, hrest⟩ := List.nodup_cons.mp hnodup
      have hk : k ∉ names rest := hnot
      rcases List.mem_cons.mp h with heq | hmem
      · cases heq
        exact List.lookup_cons_self
      · have hne : name ≠ k := fun heq => hk (heq ▸ mem_names hmem)
        rw [List.lookup_cons, beq_eq_false_iff_ne.mpr hne]
        exact lookup_of_mem hrest hmem

/-- The member of an event is set or deleted where it is. -/
theorem setEvent_eq_filterMap {event : JsText} {entries : List JsValue} {hooks : Members}
    (hnodup : (names hooks).Nodup)
    (hentries : entries = cleaned (itemsOf (hooks.lookup event))) :
    setEvent event entries hooks = hooks.filterMap (undress [event]) := by
  have hother : ∀ m : JsText × JsValue, m.1 ≠ event → undress [event] m = some m :=
    fun m hne => if_neg fun h => hne (List.mem_singleton.mp h)
  have hself : ∀ m ∈ hooks, m.1 = event → cleaned (itemsOf (some m.2)) = entries := by
    rintro ⟨k, v⟩ hm rfl
    rw [hentries, lookup_of_mem hnodup hm]
  unfold setEvent
  cases hempty : entries.isEmpty with
  | true =>
      rw [if_pos rfl, deleteMember, ← List.filterMap_eq_filter]
      refine List.filterMap_congr fun m hm => ?_
      by_cases h : m.1 = event
      · simp [undress, h, hself m hm h, List.isEmpty_iff.mp hempty, Option.guard]
      · simp [hother m h, h, Option.guard]
  | false =>
      have hmem : event ∈ names hooks := by
        by_contra hnot
        rw [hentries, lookup_eq_none_iff.mpr hnot] at hempty
        cases hempty
      let put : JsText × JsValue → JsText × JsValue :=
        fun m => if m.1 = event then (event, .array entries) else m
      rw [if_neg Bool.false_ne_true,
        setMember_eq_map (f := put) hnodup hmem (fun w _ => if_pos rfl) fun m hne => if_neg hne,
        ← List.filterMap_eq_map]
      refine List.filterMap_congr fun m hm => ?_
      by_cases h : m.1 = event
      · simp [undress, put, h, hself m hm h, hempty]
      · simp [hother m h, put, h]

theorem undress_fst {events : List JsText} {m m' : JsText × JsValue}
    (h : undress events m = some m') : m'.1 = m.1 := by
  unfold undress at h
  dsimp only at h
  split at h
  · split at h
    · cases h
    · rw [← Option.some_inj.mp h]
  · rw [← Option.some_inj.mp h]

theorem names_filterMap_undress {events : List JsText} : ∀ {hooks : Members},
    (names (hooks.filterMap (undress events))).Sublist (names hooks)
  | [] => List.Sublist.refl _
  | m :: rest => by
      cases hm : undress events m with
      | none =>
          rw [List.filterMap_cons_none hm]
          exact (@names_filterMap_undress _ rest).cons m.1
      | some m' =>
          rw [List.filterMap_cons_some hm]
          unfold names
          rw [List.map_cons, List.map_cons, undress_fst hm]
          exact (@names_filterMap_undress _ rest).cons_cons m.1

theorem undress_bind {event : JsText} {events : List JsText} (h : event ∉ events)
    (m : JsText × JsValue) :
    (undress [event] m).bind (undress events) = undress (event :: events) m := by
  by_cases hm : m.1 = event
  · simp only [undress, hm, List.mem_cons, List.not_mem_nil, or_false, true_or, if_true]
    split
    · rfl
    · simp [undress, h]
  · simp [undress, hm]

/-- Uninstalling event after event. -/
theorem foldl_uninstall (failMode : Hook.FailMode) : ∀ {events : List JsText} {hooks : Members},
    events.Nodup → (names hooks).Nodup →
    events.foldl (planEvent env failMode false) hooks = hooks.filterMap (undress events)
  | [], hooks, _, _ => by
      have hid : undress [] = some := by
        funext m
        exact if_neg List.not_mem_nil
      rw [List.foldl_nil, hid, List.filterMap_some]
  | event :: events, hooks, hevents, hnodup => by
      obtain ⟨hnot, hrest⟩ := List.nodup_cons.mp hevents
      have hstep : planEvent env failMode false hooks event
          = hooks.filterMap (undress [event]) := by
        refine setEvent_eq_filterMap hnodup ?_
        exact List.append_nil _
      rw [List.foldl_cons, hstep,
        foldl_uninstall failMode hrest (hnodup.sublist names_filterMap_undress),
        List.filterMap_filterMap]
      exact List.filterMap_congr fun m _ => undress_bind hnot m

/-! ## Installing twice, and uninstalling -/

theorem names_fresh (failMode : Hook.FailMode) (events : List JsText) :
    names (events.map (freshMember env failMode)) = events := by
  unfold names
  rw [List.map_map]
  exact (List.map_congr_left fun _ _ => rfl).trans (List.map_id events)

theorem nodup_claudeEvents : claudeEvents.Nodup := by decide

section Events

variable {failMode : Hook.FailMode} {events : List JsText} {hooks : Members}

theorem names_foldl_install (hevents : events.Nodup) (h : (names hooks).Nodup) :
    names (events.foldl (planEvent env failMode true) hooks)
      = names hooks ++ events.filter fun e => e ∉ names hooks := by
  rw [foldl_install env failMode hevents h, names_append, names_fresh, names_map_dress]

theorem nodup_foldl_install (hevents : events.Nodup) (h : (names hooks).Nodup) :
    (names (events.foldl (planEvent env failMode true) hooks)).Nodup := by
  rw [names_foldl_install env hevents h]
  refine List.Nodup.append h (hevents.filter _) fun e he hnew => ?_
  have hnot := (List.mem_filter.mp hnew).2
  exact absurd he (by simpa using hnot)

theorem cleaned_append (xs ys : List JsValue) : cleaned (xs ++ ys) = cleaned xs ++ cleaned ys :=
  List.filterMap_append

theorem cleaned_own (failMode : Hook.FailMode) (event : JsText) :
    cleaned [ownEntry env failMode event] = [] :=
  List.filterMap_cons_none (withoutOurs_ownEntry env failMode event)

theorem cleaned_dressed (failMode : Hook.FailMode) (event : JsText) (entries : List JsValue) :
    cleaned (cleaned entries ++ [ownEntry env failMode event]) = cleaned entries := by
  rw [cleaned_append, cleaned_cleaned, cleaned_own, List.append_nil]

theorem itemsOf_array (items : List JsValue) : itemsOf (some (.array items)) = items := rfl

theorem dress_of_mem {event : JsText} (v : JsValue) (h : event ∈ events) :
    dress env failMode events (event, v)
      = (event, .array (cleaned (itemsOf (some v)) ++ [ownEntry env failMode event])) := if_pos h

theorem dress_dress (m : JsText × JsValue) :
    dress env failMode events (dress env failMode events m) = dress env failMode events m := by
  obtain ⟨event, v⟩ := m
  by_cases hm : event ∈ events
  · rw [dress_of_mem env v hm, dress_of_mem env _ hm, itemsOf_array, cleaned_dressed]
  · simp only [dress, hm, if_false]

theorem undress_dress (m : JsText × JsValue) :
    undress events (dress env failMode events m) = undress events m := by
  obtain ⟨event, v⟩ := m
  by_cases hm : event ∈ events
  · rw [dress_of_mem env v hm, undress, undress, if_pos hm, if_pos hm, itemsOf_array,
      cleaned_dressed]
  · simp only [dress, hm, if_false]

theorem dress_fresh {event : JsText} (h : event ∈ events) :
    dress env failMode events (freshMember env failMode event)
      = freshMember env failMode event := by
  unfold freshMember
  rw [dress_of_mem env _ h, itemsOf_array, cleaned_own, List.nil_append]

theorem undress_fresh {event : JsText} (h : event ∈ events) :
    undress events (freshMember env failMode event) = none := by
  unfold freshMember undress
  rw [if_pos h, itemsOf_array, cleaned_own]
  rfl

/-- The hooks are the same after a second installation. -/
theorem foldl_install_twice (hevents : events.Nodup) (h : (names hooks).Nodup) :
    events.foldl (planEvent env failMode true) (events.foldl (planEvent env failMode true) hooks)
      = events.foldl (planEvent env failMode true) hooks := by
  have hnone : (events.filter fun e =>
      e ∉ names (events.foldl (planEvent env failMode true) hooks)) = [] := by
    refine List.filter_eq_nil_iff.mpr fun e he => ?_
    have hmem : e ∈ names (events.foldl (planEvent env failMode true) hooks) := by
      rw [names_foldl_install env hevents h, List.mem_append]
      by_cases hin : e ∈ names hooks
      · exact .inl hin
      · exact .inr (List.mem_filter.mpr ⟨he, by simpa using hin⟩)
    simpa using hmem
  rw [foldl_install env failMode hevents (nodup_foldl_install env hevents h), hnone, List.map_nil,
    List.append_nil, foldl_install env failMode hevents h, List.map_append, List.map_map,
    List.map_map]
  congr 1
  · exact List.map_congr_left fun m _ => dress_dress env m
  · exact List.map_congr_left fun e he => dress_fresh env (List.mem_of_mem_filter he)

/-- Uninstalling leaves what it leaves without the installation. -/
theorem foldl_uninstall_install (hevents : events.Nodup) (h : (names hooks).Nodup) :
    events.foldl (planEvent env failMode false) (events.foldl (planEvent env failMode true) hooks)
      = events.foldl (planEvent env failMode false) hooks := by
  have hnone : ((events.filter fun e => e ∉ names hooks).map
      (freshMember env failMode)).filterMap (undress events) = [] := by
    rw [List.filterMap_eq_nil_iff]
    intro m hm
    obtain ⟨e, he, rfl⟩ := List.mem_map.mp hm
    exact undress_fresh env (List.mem_of_mem_filter he)
  rw [foldl_uninstall env failMode hevents (nodup_foldl_install env hevents h),
    foldl_uninstall env failMode hevents h, foldl_install env failMode hevents h,
    List.filterMap_append, hnone, List.append_nil, List.filterMap_map]
  exact List.filterMap_congr fun m _ => undress_dress env m

end Events

theorem planEvents_install_twice {failMode : Hook.FailMode} {hooks : Members}
    (h : (names hooks).Nodup) :
    planEvents env failMode true (planEvents env failMode true hooks)
      = planEvents env failMode true hooks := by
  unfold planEvents
  exact foldl_install_twice env nodup_claudeEvents h

theorem planEvents_uninstall_install {failMode : Hook.FailMode} {hooks : Members}
    (h : (names hooks).Nodup) :
    planEvents env failMode false (planEvents env failMode true hooks)
      = planEvents env failMode false hooks := by
  unfold planEvents
  exact foldl_uninstall_install env nodup_claudeEvents h

/-! ## The settings file -/

/-- Settings whose hooks are absent or map events to arrays of entries. -/
structure Settings where
  members : Members
  hooks : Members
  hooks_eq : members.lookup (js "hooks") = none ∧ hooks = []
    ∨ members.lookup (js "hooks") = some (.object hooks)
  nodup : (names hooks).Nodup
  arrays : ∀ m ∈ hooks, ∃ entries, m.2 = .array entries

theorem Settings.hooksOf_eq (s : Settings) : hooksOf s.members = some s.hooks := by
  unfold hooksOf
  rcases s.hooks_eq with ⟨hnone, hnil⟩ | hsome
  · rw [hnone, hnil]
  · rw [hsome]

/-- Settings with these hooks in the place of theirs; no hooks are no member. -/
def withHooks (settings hooks : Members) : Members :=
  if hooks.isEmpty then deleteMember (js "hooks") settings
  else JsValue.setMember (js "hooks") (.object hooks) settings

theorem planClaude_eq {settings hooks : Members} (h : hooksOf settings = some hooks)
    (failMode : Hook.FailMode) (install : Bool) :
    planClaude env failMode install settings
      = some (withHooks settings (planEvents env failMode install hooks)) := by
  unfold planClaude
  rw [h]
  rfl

theorem withHooks_withHooks {hooks : Members} (hne : hooks.isEmpty = false)
    (settings hooks' : Members) :
    withHooks (withHooks settings hooks) hooks' = withHooks settings hooks' := by
  have hset : withHooks settings hooks
      = JsValue.setMember (js "hooks") (.object hooks) settings := by
    rw [withHooks, hne, if_neg Bool.false_ne_true]
  rw [hset]
  unfold withHooks
  rw [deleteMember_setMember, setMember_setMember]

theorem hooksOf_withHooks (settings hooks : Members) :
    hooksOf (withHooks settings hooks) = some hooks := by
  unfold withHooks hooksOf
  cases hempty : hooks.isEmpty with
  | true =>
      rw [if_pos rfl, lookup_deleteMember_self, List.isEmpty_iff.mp hempty]
  | false => rw [if_neg Bool.false_ne_true, lookup_setMember_self]

theorem lookup_withHooks_ne {name : JsText} (hne : name ≠ js "hooks") (settings hooks : Members) :
    (withHooks settings hooks).lookup name = settings.lookup name := by
  unfold withHooks
  split
  · exact lookup_deleteMember_ne hne settings
  · exact lookup_setMember_ne hne _ settings

theorem isEmpty_planEvents_install {failMode : Hook.FailMode} {hooks : Members}
    (h : (names hooks).Nodup) : (planEvents env failMode true hooks).isEmpty = false := by
  rw [← Bool.not_eq_true, List.isEmpty_iff]
  intro hempty
  have hnames := @names_foldl_install env failMode _ _ nodup_claudeEvents h
  rw [← planEvents, hempty] at hnames
  obtain ⟨hnone, hfilter⟩ := List.append_eq_nil_iff.mp hnames.symm
  have hmem : js "Stop" ∈ claudeEvents := by decide
  have hnot := List.filter_eq_nil_iff.mp hfilter _ hmem
  rw [hnone] at hnot
  simp at hnot

/-! ## Hooks that are kept -/

/-- The hooks of an event that are not recognised. -/
def foreignAt (settings : Members) (event : JsText) : List JsValue :=
  foreign (itemsOf (((hooksOf settings).getD []).lookup event))

theorem foreign_append (xs ys : List JsValue) : foreign (xs ++ ys) = foreign xs ++ foreign ys :=
  List.flatMap_append

theorem itemsOf_lookup_setEvent_self (event : JsText) (entries : List JsValue) (hooks : Members) :
    itemsOf ((setEvent event entries hooks).lookup event) = entries := by
  unfold setEvent
  cases hempty : entries.isEmpty with
  | true =>
      rw [if_pos rfl, lookup_deleteMember_self, List.isEmpty_iff.mp hempty]
      rfl
  | false =>
      rw [if_neg Bool.false_ne_true, lookup_setMember_self]
      rfl

theorem lookup_setEvent_ne {event other : JsText} (hne : other ≠ event) (entries : List JsValue)
    (hooks : Members) : (setEvent event entries hooks).lookup other = hooks.lookup other := by
  unfold setEvent
  split
  · exact lookup_deleteMember_ne hne hooks
  · exact lookup_setMember_ne hne _ hooks

/-- One event keeps the hooks of every event that are not recognised. -/
theorem foreign_planEvent (failMode : Hook.FailMode) (install : Bool) (hooks : Members)
    (event other : JsText) :
    foreign (itemsOf ((planEvent env failMode install hooks event).lookup other))
      = foreign (itemsOf (hooks.lookup other)) := by
  by_cases h : other = event
  · subst h
    have hown : foreign (installed env failMode install other) = [] := by
      unfold installed
      split
      · exact foreign_ownEntry env failMode other
      · rfl
    unfold planEvent
    dsimp only
    rw [itemsOf_lookup_setEvent_self, foreign_append, hown, List.append_nil]
    exact foreign_cleaned _
  · unfold planEvent
    dsimp only
    rw [lookup_setEvent_ne h]

theorem foreign_foldl_planEvent (failMode : Hook.FailMode) (install : Bool) (other : JsText) :
    ∀ (events : List JsText) (hooks : Members),
      foreign (itemsOf ((events.foldl (planEvent env failMode install) hooks).lookup other))
        = foreign (itemsOf (hooks.lookup other))
  | [], _ => rfl
  | event :: events, hooks => by
      rw [List.foldl_cons, foreign_foldl_planEvent failMode install other events,
        foreign_planEvent]

theorem foreign_planEvents (failMode : Hook.FailMode) (install : Bool) (other : JsText)
    (hooks : Members) :
    foreign (itemsOf ((planEvents env failMode install hooks).lookup other))
      = foreign (itemsOf (hooks.lookup other)) := by
  unfold planEvents
  exact foreign_foldl_planEvent env failMode install other claudeEvents hooks

/-! ## Up to empty containers -/

def isEmptyArray : JsValue → Bool
  | .array items => items.isEmpty
  | _ => false

def nonEmpty (hooks : Members) : Members := hooks.filter fun m => !isEmptyArray m.2

/-- The settings without empty containers of hooks. -/
def withoutEmpty (settings : Members) : Members :=
  match settings.lookup (js "hooks") with
  | some (.object hooks) => withHooks settings (nonEmpty hooks)
  | _ => settings

/-- No event has a hook that is recognised. -/
def Settings.NoneOfOurs (s : Settings) : Prop :=
  ∀ m ∈ s.hooks, m.1 ∈ claudeEvents → ∀ entry ∈ itemsOf (some m.2), hasOurs entry = false

/-- A member that uninstalling keeps where there is nothing to remove. -/
def keeps (m : JsText × JsValue) : Bool := !(decide (m.1 ∈ claudeEvents) && isEmptyArray m.2)

theorem undress_of_noneOfOurs {s : Settings} (h : s.NoneOfOurs) {m : JsText × JsValue}
    (hm : m ∈ s.hooks) : undress claudeEvents m = Option.guard keeps m := by
  obtain ⟨entries, hentries⟩ := s.arrays m hm
  unfold undress
  by_cases hevent : m.1 ∈ claudeEvents
  · have hclean : cleaned (itemsOf (some m.2)) = entries := by
      rw [cleaned_of_not_hasOurs (h m hm hevent), hentries]
      rfl
    have hkeeps : keeps m = !entries.isEmpty := by
      rw [keeps, decide_eq_true hevent, hentries]
      rfl
    rw [if_pos hevent, hclean, Option.guard, hkeeps]
    dsimp only
    rw [← hentries]
    cases entries.isEmpty <;> rfl
  · have hkeeps : keeps m = true := by
      rw [keeps, decide_eq_false hevent]
      rfl
    rw [if_neg hevent, Option.guard, hkeeps, if_pos rfl]

theorem nonEmpty_uninstalled {s : Settings} (h : s.NoneOfOurs) (failMode : Hook.FailMode) :
    nonEmpty (planEvents env failMode false s.hooks) = nonEmpty s.hooks := by
  rw [planEvents, foldl_uninstall env failMode nodup_claudeEvents s.nodup,
    List.filterMap_congr fun m hm => undress_of_noneOfOurs h hm, List.filterMap_eq_filter, nonEmpty,
    nonEmpty, List.filter_filter]
  refine List.filter_congr fun m _ => ?_
  unfold keeps
  cases isEmptyArray m.2 <;> simp

theorem withoutEmpty_withHooks (settings hooks : Members) :
    withoutEmpty (withHooks settings hooks) = withHooks settings (nonEmpty hooks) := by
  cases hempty : hooks.isEmpty with
  | true =>
      have hnil := List.isEmpty_iff.mp hempty
      have hlookup : (withHooks settings hooks).lookup (js "hooks") = none := by
        rw [withHooks, hempty, if_pos rfl, lookup_deleteMember_self]
      unfold withoutEmpty
      rw [hlookup, hnil]
      rfl
  | false =>
      have hlookup : (withHooks settings hooks).lookup (js "hooks") = some (.object hooks) := by
        rw [withHooks, hempty, if_neg Bool.false_ne_true, lookup_setMember_self]
      unfold withoutEmpty
      rw [hlookup]
      exact withHooks_withHooks hempty settings (nonEmpty hooks)

/-- Without recognised hooks, uninstalling changes empty containers only. -/
theorem withoutEmpty_uninstalled {s : Settings} (h : s.NoneOfOurs) (failMode : Hook.FailMode) :
    withoutEmpty (withHooks s.members (planEvents env failMode false s.hooks))
      = withoutEmpty s.members := by
  rw [withoutEmpty_withHooks, nonEmpty_uninstalled env h]
  unfold withoutEmpty
  rcases s.hooks_eq with ⟨hnone, hnil⟩ | hsome
  · rw [hnone, hnil]
    have hnot : js "hooks" ∉ names s.members := lookup_eq_none_iff.mp hnone
    exact deleteMember_of_notMem hnot
  · rw [hsome]

/-- What installing and uninstalling do to settings. -/
structure ClaudeLossless (failMode : Hook.FailMode) (s : Settings) : Prop where
  twice : ∃ once, planClaude env failMode true s.members = some once
    ∧ planClaude env failMode true once = some once
  undone : ∃ once left, planClaude env failMode true s.members = some once
    ∧ planClaude env failMode false once = some left
    ∧ planClaude env failMode false s.members = some left
    ∧ (s.NoneOfOurs → withoutEmpty left = withoutEmpty s.members)
  kept : ∀ install, ∃ after, planClaude env failMode install s.members = some after
    ∧ (∀ event, foreignAt after event = foreignAt s.members event)
    ∧ ∀ name, name ≠ js "hooks" → after.lookup name = s.members.lookup name

theorem claudeLossless (failMode : Hook.FailMode) (s : Settings) :
    ClaudeLossless env failMode s := by
  have hne := @isEmpty_planEvents_install env failMode _ s.nodup
  have honce := planClaude_eq env s.hooksOf_eq failMode true
  have hagain := hooksOf_withHooks s.members (planEvents env failMode true s.hooks)
  refine ⟨⟨_, honce, ?_⟩, ⟨_, _, honce, ?_, planClaude_eq env s.hooksOf_eq failMode false,
    fun h => withoutEmpty_uninstalled env h failMode⟩, fun install => ?_⟩
  · rw [planClaude_eq env hagain, withHooks_withHooks hne, planEvents_install_twice env s.nodup]
  · rw [planClaude_eq env hagain, withHooks_withHooks hne,
      planEvents_uninstall_install env s.nodup]
  · refine ⟨_, planClaude_eq env s.hooksOf_eq failMode install, fun event => ?_, fun name hname =>
      lookup_withHooks_ne hname _ _⟩
    unfold foreignAt
    rw [hooksOf_withHooks, s.hooksOf_eq, Option.getD_some, Option.getD_some, foreign_planEvents]

end HooksInstall

end Agenomic.Connector
