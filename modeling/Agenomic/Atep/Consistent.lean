import Agenomic.Atep.Append

/-!
# A store and its manifest

What a store is for: for every stream a list of segments, each a list of events.
`Stored` says that an open store has such contents, and `Holds` that it has them and they
can be read; every call that does not meet one of the two defects keeps the contents or
adds one segment to a stream.

**`run_consistent`**: so the readable events are at any time those of the calls that
succeeded, all of the store's agent, and as many as the manifest counts.
-/

namespace Agenomic.Atep

open Lib

variable {d : Deps}

/-! ## The names of segments -/

theorem StreamId.label_injective {st st' : StreamId} (h : st.label = st'.label) : st = st' := by
  cases st <;> cases st' <;> first | rfl | exact absurd h (by decide)

theorem StreamId.dash_notMem_label (st : StreamId) : '-' ∉ st.label.toList := by
  cases st <;> decide

theorem toList_segmentFile (label : String) (seq : Nat) : (segmentFile label seq).toList
    = label.toList ++ '-' :: (padded 8 seq ++ ".atep".toList) := String.toList_ofList

/-- The name of a segment tells its stream and its number. -/
theorem segmentFile_injective {st st' : StreamId} {i j : Nat}
    (h : segmentFile st.label i = segmentFile st'.label j) : st = st' ∧ i = j := by
  have hrest : '-' ∉ padded 8 i ++ ".atep".toList := by
    intro hmem
    rcases List.mem_append.mp hmem with hmem | hmem
    · exact absurd (padded_isDigit hmem) (by decide)
    · exact absurd hmem (by decide)
  have hlist := congrArg String.toList h
  rw [toList_segmentFile, toList_segmentFile,
    List.append_cons_inj_of_notMem st.dash_notMem_label hrest] at hlist
  obtain ⟨hlabel, -, hrest⟩ := hlist
  have hpadded : padded 8 i = padded 8 j := List.append_cancel_right hrest
  refine ⟨StreamId.label_injective (String.toList_inj.mp hlabel), ?_⟩
  rw [← ofDecimal_padded 8 i, hpadded, ofDecimal_padded]

theorem isAbsolute_segmentFile (st : StreamId) (seq : Nat) :
    isAbsolute (segmentFile st.label seq) = false := by
  unfold isAbsolute
  rw [toList_segmentFile]
  cases st <;> rfl

theorem joinPath_injective {base a b : String} (ha : isAbsolute a = false)
    (hb : isAbsolute b = false) (h : joinPath base a = joinPath base b) : a = b := by
  unfold joinPath at h
  rw [ha, hb] at h
  simp only [Bool.false_eq_true, if_false] at h
  split at h
  · exact (String.append_right_inj _).mp h
  · exact (String.append_right_inj _).mp h

/-- Where a store keeps a segment. -/
def segmentPath (root : String) (st : StreamId) (seq : Nat) : String :=
  joinPath (joinPath root "streams") (segmentFile st.label seq)

theorem segmentPath_injective {root : String} {st st' : StreamId} {i j : Nat}
    (h : segmentPath root st i = segmentPath root st' j) : st = st' ∧ i = j :=
  segmentFile_injective
    (joinPath_injective (isAbsolute_segmentFile st i) (isAbsolute_segmentFile st' j) h)

/-! ## What a store is for -/

/-- For every stream its segments, and for every segment its events. -/
abbrev Contents (d : Deps) := StreamId → List (List d.Event)

/-- The streams in the order of their labels. -/
def streamOrder : List StreamId :=
  [.capability, .governance, .identity, .interaction, .knowledge, .policy, .runtime]

theorem mem_streamOrder (st : StreamId) : st ∈ streamOrder := by
  cases st <;> decide

theorem streamOrder_nodup : streamOrder.Nodup := by decide

theorem streamOrder_sorted :
    (streamOrder.map StreamId.label).Pairwise fun a b => compare a b = .lt := by decide

/-- One stream's list grows: all lists together grow by the same. -/
theorem flatMap_update_perm {κ β : Type} [DecidableEq κ] {g : κ → List β} {k : κ} {more : List β} :
    ∀ {ks : List κ}, ks.Nodup → k ∈ ks →
      (ks.flatMap (Function.update g k (g k ++ more))).Perm (ks.flatMap g ++ more)
  | [], _, h => absurd h List.not_mem_nil
  | k' :: ks, hnodup, h => by
      obtain ⟨hnot, hnodup⟩ := List.nodup_cons.mp hnodup
      rw [List.flatMap_cons, List.flatMap_cons]
      by_cases hk : k' = k
      · subst hk
        have hrest : ks.flatMap (Function.update g k' (g k' ++ more)) = ks.flatMap g := by
          refine List.flatMap_congr fun x hx => ?_
          rw [Function.update_of_ne]
          rintro rfl
          exact hnot hx
        rw [Function.update_self, hrest, List.append_assoc, List.append_assoc]
        exact List.perm_append_comm.append_left (g k')
      · have hmem : k ∈ ks := (List.mem_cons.mp h).resolve_left (Ne.symm hk)
        rw [Function.update_of_ne hk, List.append_assoc]
        exact (flatMap_update_perm hnodup hmem).append_left (g k')

namespace Contents

/-- All events, in the order in which they are read. -/
def events (c : Contents d) : List d.Event := streamOrder.flatMap fun st => (c st).flatten

/-- One more segment in a stream. -/
def add (c : Contents d) (st : StreamId) (es : List d.Event) : Contents d :=
  Function.update c st (c st ++ [es])

theorem events_add (c : Contents d) (st : StreamId) (es : List d.Event) :
    (c.add st es).events.Perm (c.events ++ es) := by
  have hflat : (fun st' => (c.add st es st').flatten)
      = Function.update (fun st' => (c st').flatten) st ((c st).flatten ++ es) := by
    funext st'
    unfold add
    by_cases hst : st' = st
    · subst hst
      rw [Function.update_self, Function.update_self, List.flatten_append, List.flatten_singleton]
    · rw [Function.update_of_ne hst, Function.update_of_ne hst]
  unfold events
  rw [hflat]
  exact flatMap_update_perm (g := fun st' => (c st').flatten) streamOrder_nodup (mem_streamOrder st)

end Contents

variable (d)

/-- What the manifest records of a segment of some events. -/
def segmentRecord (label : String) (seq : Nat) (events : List d.Event) : SegmentRecord :=
  ⟨segmentFile label seq, events.length,
    String.ofList (hexEncode (computeMerkleRoot d (events.map (·.causalHash))).toList)⟩

/-- The records of some segments of a stream, numbered from a number on. -/
def segmentRecords (label : String) : Nat → List (List d.Event) → List SegmentRecord
  | _, [] => []
  | seq, es :: rest => segmentRecord d label seq es :: segmentRecords label (seq + 1) rest

/-- The events of a segment that was written. -/
structure Storable (events : List d.Event) : Prop where
  framed : ∀ e ∈ events, Framed d e
  count : events.length < 4294967296
  bytes : framesEnd d events + 24 < 18446744073709551616

/-- The events of a segment of an agent's store: they were written, and they can be read. -/
structure Written (agentId : String) (events : List d.Event) : Prop
    extends Storable d events where
  decoded : ∀ e ∈ events, ∀ buf, d.encodeEvent e = .ok buf → d.decodeEvent buf = .ok e
  agent : ∀ e ∈ events, e.header.agentId = agentId

variable {d}

theorem segmentRecords_append (label : String) (es : List d.Event) :
    ∀ (segs : List (List d.Event)) (seq : Nat), segmentRecords d label seq (segs ++ [es])
      = segmentRecords d label seq segs ++ [segmentRecord d label (seq + segs.length) es]
  | [], _ => rfl
  | s :: segs, seq => by
      have ih := segmentRecords_append label es segs (seq + 1)
      rw [List.cons_append, segmentRecords, ih, segmentRecords, List.cons_append,
        List.length_cons, Nat.add_right_comm, Nat.add_assoc]

/-- The records count the events. -/
theorem sum_segmentRecords (label : String) : ∀ (segs : List (List d.Event)) (seq : Nat),
    ((segmentRecords d label seq segs).map (·.events)).sum = segs.flatten.length
  | [], _ => rfl
  | es :: segs, seq => by
      have ih := sum_segmentRecords label segs (seq + 1)
      rw [segmentRecords, List.map_cons, List.sum_cons, ih, List.flatten_cons, List.length_append]
      rfl

variable (d)

/-- An open store has some contents in its files and its manifest. -/
structure Stored (s : Opened) (c : Contents d) : Prop where
  saved : s.saved = s.store.manifest
  /-- A stream without segments is not in the manifest. -/
  streams : ∀ st, s.store.manifest.streams[st.label]?
    = if c st = [] then none else some (segmentRecords d st.label 1 (c st))
  labels : ∀ label ∈ s.store.manifest.streams, label ∈ streamOrder.map StreamId.label
  bounded : ∀ st, (c st).length < 4294967296
  files : ∀ st i es, (c st)[i]? = some es →
    s.store.files (segmentPath s.store.root st (i + 1)) = .ok (segmentBytes d es)
  storable : ∀ st, ∀ es ∈ c st, Storable d es
  total : s.store.manifest.totalEvents = c.events.length

/-- An open store stands for some contents. -/
structure Holds (s : Opened) (c : Contents d) : Prop extends Stored d s c where
  written : ∀ st, ∀ es ∈ c st, Written d s.store.manifest.agentId es

variable {d}

/-! ## Reading -/

theorem readRecords_cons (s : AtepStore) (rec : SegmentRecord) (rest : List SegmentRecord) :
    s.readRecords d (rec :: rest) = (do
      let reader ← s.openSegment d rec
      let events ← reader.readAll d
      let more ← s.readRecords d rest
      .ok (events ++ more)) := rfl

theorem readRecords_append (s : AtepStore) (ys : List SegmentRecord) :
    ∀ xs : List SegmentRecord, s.readRecords d (xs ++ ys) = (do
      let es ← s.readRecords d xs
      let more ← s.readRecords d ys
      .ok (es ++ more))
  | [] => by
      rw [List.nil_append]
      cases h : s.readRecords d ys <;> rfl
  | rec :: rest => by
      rw [List.cons_append, readRecords_cons, readRecords_cons, readRecords_append s ys rest]
      simp only [bind_assoc]
      refine bind_congr fun reader => bind_congr fun events => bind_congr fun es => ?_
      cases s.readRecords d ys with
      | error e => rfl
      | ok more =>
          change Except.ok (events ++ (es ++ more)) = Except.ok (events ++ es ++ more)
          rw [List.append_assoc]

/-- What is read of some records after others. -/
theorem readRecords_append_eq {s : AtepStore} {xs ys : List SegmentRecord} {es es' : List d.Event}
    (h : s.readRecords d xs = es.mapM (reread d)) (h' : s.readRecords d ys = es'.mapM (reread d)) :
    s.readRecords d (xs ++ ys) = (es ++ es').mapM (reread d) := by
  rw [readRecords_append, h, h', List.mapM_append]
  rfl

theorem readRecords_flatMap {κ : Type} {s : AtepStore} {f : κ → List SegmentRecord}
    {g : κ → List d.Event} (h : ∀ k, s.readRecords d (f k) = (g k).mapM (reread d)) :
    ∀ ks : List κ, s.readRecords d (ks.flatMap f) = (ks.flatMap g).mapM (reread d)
  | [] => rfl
  | k :: ks => by
      rw [List.flatMap_cons, List.flatMap_cons]
      exact readRecords_append_eq (h k) (readRecords_flatMap h ks)

/-- A segment that stands where its record says is read back. -/
theorem readRecords_segment {s : AtepStore} {st : StreamId} {seq : Nat} {es : List d.Event}
    (hw : Storable d es)
    (hfile : s.files (segmentPath s.root st seq) = .ok (segmentBytes d es)) :
    s.readRecords d [segmentRecord d st.label seq es] = es.mapM (reread d) := by
  have hpath : s.files (joinPath (joinPath s.root "streams")
      (segmentRecord d st.label seq es).file) = .ok (segmentBytes d es) := hfile
  have hbytes := hw.bytes
  have hopen : s.openSegment d (segmentRecord d st.label seq es) = .ok (segmentReader d es) := by
    unfold AtepStore.openSegment
    dsimp only
    rw [hpath]
    exact open_segmentBytes hw.count (by omega)
  unfold AtepStore.readRecords
  rw [hopen]
  simp only [bind, Except.bind, readAll_reread hw.framed, AtepStore.readRecords]
  cases es.mapM (reread d) with
  | error e => rfl
  | ok events =>
      dsimp only
      rw [List.append_nil]

/-- The segments of a stream are read back in order. -/
theorem readRecords_segments {s : AtepStore} {st : StreamId} :
    ∀ {segs : List (List d.Event)} {seq : Nat}, (∀ es ∈ segs, Storable d es) →
      (∀ i es, segs[i]? = some es →
        s.files (segmentPath s.root st (seq + i)) = .ok (segmentBytes d es)) →
      s.readRecords d (segmentRecords d st.label seq segs) = segs.flatten.mapM (reread d)
  | [], _, _, _ => rfl
  | es :: segs, seq, hw, hfiles => by
      have hhead := readRecords_segment (hw es List.mem_cons_self) (hfiles 0 es rfl)
      have hlater : ∀ i x, segs[i]? = some x →
          s.files (segmentPath s.root st (seq + 1 + i)) = .ok (segmentBytes d x) := by
        intro i x hx
        rw [Nat.add_assoc, Nat.add_comm 1 i]
        exact hfiles (i + 1) x hx
      have htail := readRecords_segments (fun x hx => hw x (List.mem_cons_of_mem es hx)) hlater
      exact readRecords_append_eq hhead htail

namespace Stored

variable {s : Opened} {c : Contents d}

/-- The records of the manifest are those of the contents. -/
theorem records_eq (h : Stored d s c) : s.store.records
    = streamOrder.flatMap fun st => segmentRecords d st.label 1 (c st) := by
  have hlist : ∀ L : List StreamId,
      ((L.map StreamId.label).filterMap fun k =>
        s.store.manifest.streams[k]?.map (k, ·)).flatMap (·.2)
        = L.flatMap fun st => segmentRecords d st.label 1 (c st) := by
    intro L
    induction L with
    | nil => rfl
    | cons st L ih =>
        rw [List.map_cons, List.filterMap_cons, List.flatMap_cons, h.streams st]
        by_cases hnone : c st = []
        · rw [if_pos hnone, hnone]
          exact ih
        · rw [if_neg hnone]
          dsimp only [Option.map_some]
          rw [List.flatMap_cons, ih]
  unfold AtepStore.records
  rw [toList_eq_filterMap _ streamOrder_sorted h.labels]
  exact hlist streamOrder

/-- The records of a stream are read back as its events. -/
theorem readRecords_eq (h : Stored d s c) (st : StreamId) :
    s.store.readRecords d (segmentRecords d st.label 1 (c st))
      = (c st).flatten.mapM (reread d) := by
  refine readRecords_segments (h.storable st) fun i es hes => ?_
  rw [Nat.add_comm]
  exact h.files st i es hes

theorem readAllEvents_eq (h : Stored d s c) :
    s.store.readAllEvents d = c.events.mapM (reread d) := by
  unfold AtepStore.readAllEvents
  rw [h.records_eq]
  exact readRecords_flatMap h.readRecords_eq streamOrder

theorem sum_records (h : Stored d s c) : (s.store.records.map (·.events)).sum = c.events.length := by
  have hlist : ∀ L : List StreamId,
      ((L.flatMap fun st => segmentRecords d st.label 1 (c st)).map (·.events)).sum
        = (L.flatMap fun st => (c st).flatten).length := by
    intro L
    induction L with
    | nil => rfl
    | cons st L ih =>
        rw [List.flatMap_cons, List.flatMap_cons, List.map_append, List.sum_append,
          List.length_append, ih, sum_segmentRecords]
  rw [h.records_eq]
  exact hlist streamOrder

/-! ## One call -/

theorem init (root agentId : String) (files : Files) :
    Stored d (Opened.init root agentId files) fun _ => [] where
  saved := rfl
  streams _ := Std.ExtTreeMap.getElem?_empty
  labels _ h := absurd h Std.ExtTreeMap.not_mem_empty
  bounded _ := Nat.zero_lt_of_ne_zero (by decide)
  files _ _ _ h := by cases h
  storable _ _ h := absurd h List.not_mem_nil
  total := rfl

/-- The next segment of a stream goes where no recorded segment is. -/
theorem nextSegmentPath_eq (h : Stored d s c) (st : StreamId) :
    s.store.nextSegmentPath st.label
      = if (c st).length + 1 < 4294967296 then
          .ok (segmentPath s.store.root st ((c st).length + 1),
            segmentFile st.label ((c st).length + 1))
        else .error .overflow := by
  have hnum : ∀ segs : List (List d.Event), ∀ seq,
      (segmentRecords d st.label seq segs).length = segs.length := by
    intro segs
    induction segs with
    | nil => exact fun _ => rfl
    | cons es segs ih => exact fun seq => congrArg (· + 1) (ih (seq + 1))
  unfold AtepStore.nextSegmentPath
  rw [h.streams st]
  by_cases hnone : c st = []
  · rw [if_pos hnone, hnone]
    rfl
  · rw [if_neg hnone]
    dsimp only
    rw [hnum, Nat.mod_eq_of_lt (h.bounded st)]
    unfold addU32
    by_cases hfits : (c st).length + 1 < 4294967296
    · rw [if_pos hfits, if_pos hfits]
      rfl
    · rw [if_neg hfits, if_neg hfits]
      rfl

/-- Whatever is written to that place, the recorded segments stay. -/
theorem files_update (h : Stored d s c) (st : StreamId) (content : Except String Bytes) :
    ∀ st' i es, (c st')[i]? = some es →
      Function.update s.store.files (segmentPath s.store.root st ((c st).length + 1)) content
        (segmentPath s.store.root st' (i + 1)) = .ok (segmentBytes d es) := by
  intro st' i es hes
  have hne : segmentPath s.store.root st' (i + 1)
      ≠ segmentPath s.store.root st ((c st).length + 1) := by
    intro heq
    obtain ⟨rfl, hi⟩ := segmentPath_injective heq
    have hlt := (List.getElem?_eq_some_iff.mp hes).1
    omega
  rw [Function.update_of_ne hne]
  exact h.files st' i es hes

/-- A call that stops while it writes leaves the contents as they are. -/
theorem withFiles (h : Stored d s c) {files : Files} (st : StreamId)
    (content : Except String Bytes) (hfiles : files = Function.update s.store.files
      (segmentPath s.store.root st ((c st).length + 1)) content) :
    Stored d { s with store := { s.store with files } } c := by
  have hkept := h.files_update st content
  rw [← hfiles] at hkept
  exact { h with files := hkept }

/-- Reopening the directory leaves the contents as they are. -/
theorem reload (h : Stored d s c) :
    Stored d { s with store := { s.store with manifest := s.saved } } c := by
  obtain ⟨⟨root, manifest, files⟩, saved⟩ := s
  obtain rfl : saved = manifest := h.saved
  exact h

/-- The streams of a manifest with one more record. -/
theorem streams_push (h : Stored d s c) (st : StreamId) (es : List d.Event) (st' : StreamId) :
    (s.store.manifest.push st.label
        (segmentRecord d st.label ((c st).length + 1) es)).streams[st'.label]?
      = if c.add st es st' = [] then none
        else some (segmentRecords d st'.label 1 (c.add st es st')) := by
  have hold : (s.store.manifest.streams[st.label]?).getD []
      = segmentRecords d st.label 1 (c st) := by
    rw [h.streams st]
    by_cases hnone : c st = []
    · rw [if_pos hnone, hnone]
      rfl
    · rw [if_neg hnone]
      rfl
  unfold AtepManifest.push
  dsimp only
  rw [Std.ExtTreeMap.getElem?_insert, hold]
  by_cases hst : st' = st
  · subst hst
    have hne : c.add st' es st' = c st' ++ [es] := Function.update_self ..
    rw [if_pos Std.ReflCmp.compare_self, hne, if_neg (List.concat_ne_nil es (c st')),
      segmentRecords_append, Nat.add_comm]
  · have hsame : c.add st es st' = c st' := Function.update_of_ne hst ..
    have hlabel : ¬ compare st.label st'.label = .eq := by
      intro heq
      exact hst (StreamId.label_injective (Std.LawfulEqCmp.eq_of_compare heq)).symm
    rw [if_neg hlabel, hsame, h.streams st']

/-- **One more segment**: its file is written, it is recorded and counted, and the manifest is
saved. -/
theorem add (h : Stored d s c) {st : StreamId} {es : List d.Event}
    (hw : Storable d es) (hfits : (c st).length + 1 < 4294967296)
    {manifest : AtepManifest} {files : Files}
    (hmanifest : manifest = { s.store.manifest.push st.label
      (segmentRecord d st.label ((c st).length + 1) es) with
        totalEvents := s.store.manifest.totalEvents + es.length })
    (hfiles : files = Function.update s.store.files
      (segmentPath s.store.root st ((c st).length + 1)) (.ok (segmentBytes d es))) :
    Stored d { store := { s.store with manifest, files }, saved := manifest } (c.add st es) where
  saved := rfl
  streams := by
    rw [hmanifest]
    exact h.streams_push st es
  labels := by
    rw [hmanifest]
    intro label hmem
    rcases Std.ExtTreeMap.mem_insert.mp hmem with heq | hmem
    · rw [← Std.LawfulEqCmp.eq_of_compare heq]
      exact List.mem_map_of_mem (mem_streamOrder st)
    · exact h.labels label hmem
  bounded := by
    intro st'
    by_cases hst : st' = st
    · subst hst
      change (Function.update c st' (c st' ++ [es]) st').length < _
      rw [Function.update_self, List.length_append, List.length_singleton]
      exact hfits
    · change (Function.update c st (c st ++ [es]) st').length < _
      rw [Function.update_of_ne hst]
      exact h.bounded st'
  files := by
    intro st' i es' hes
    change files (segmentPath s.store.root st' (i + 1)) = _
    by_cases hnew : st' = st ∧ i = (c st).length
    · obtain ⟨rfl, rfl⟩ := hnew
      change (Function.update c st' (c st' ++ [es]) st')[(c st').length]? = some es' at hes
      rw [Function.update_self, List.getElem?_concat_length] at hes
      cases hes
      rw [hfiles, Function.update_self]
    · rw [hfiles]
      refine h.files_update st (.ok (segmentBytes d es)) st' i es' ?_
      by_cases hst : st' = st
      · subst hst
        change (Function.update c st' (c st' ++ [es]) st')[i]? = some es' at hes
        rw [Function.update_self] at hes
        have hlt := (List.getElem?_eq_some_iff.mp hes).1
        rw [List.length_append, List.length_singleton] at hlt
        have hi : i < (c st').length := by
          have hne : i ≠ (c st').length := fun hi => hnew ⟨rfl, hi⟩
          omega
        rw [List.getElem?_append_left hi] at hes
        exact hes
      · change (Function.update c st (c st ++ [es]) st')[i]? = some es' at hes
        rw [Function.update_of_ne hst] at hes
        exact hes
  storable := by
    intro st' es' hes
    by_cases hst : st' = st
    · subst hst
      change es' ∈ Function.update c st' (c st' ++ [es]) st' at hes
      rw [Function.update_self] at hes
      rcases List.mem_append.mp hes with hes | hes
      · exact h.storable st' es' hes
      · rw [List.mem_singleton.mp hes]
        exact hw
    · change es' ∈ Function.update c st (c st ++ [es]) st' at hes
      rw [Function.update_of_ne hst] at hes
      exact h.storable st' es' hes
  total := by
    rw [hmanifest, (c.events_add st es).length_eq, List.length_append, ← h.total]

/-- What a call that writes a segment does to the contents: it adds the segment, which was
written, and succeeds, or it leaves them and fails. -/
theorem addSegment (h : Stored d s c) {st : StreamId} (es : List d.Event) {around : Surroundings}
    {segment : CliResult (Bytes × SegmentSummary)} (hpersist : ∀ e, around.fault ≠ .persist e)
    (hsegment : around.fault = .none → ∀ out, segment = .ok out →
      out = (segmentBytes d es, segmentSummary d es) ∧ Storable d es) :
    ∃ r s', s.addSegment st.label segment es.length around = (r, s')
      ∧ s'.store.manifest.agentId = s.store.manifest.agentId
      ∧ ((r = .ok () ∧ (around.fault = .none ∧ ∃ out, segment = .ok out)
          ∧ Stored d s' (c.add st es))
        ∨ ((∃ e, r = .error e) ∧ Stored d s' c)) := by
  unfold Opened.addSegment
  rw [h.nextSegmentPath_eq st]
  by_cases hfits : (c st).length + 1 < 4294967296
  · rw [if_pos hfits]
    dsimp only
    unfold createSegment
    cases hfault : around.fault with
    | persist e => exact absurd hfault (hpersist e)
    | openSegment source => exact ⟨_, _, rfl, rfl, .inr ⟨⟨_, rfl⟩, h⟩⟩
    | writeSegment message => exact ⟨_, _, rfl, rfl, .inr ⟨⟨_, rfl⟩, h.withFiles st _ rfl⟩⟩
    | none =>
        cases hout : segment with
        | error e => exact ⟨_, _, rfl, rfl, .inr ⟨⟨e, rfl⟩, h.withFiles st _ rfl⟩⟩
        | ok out =>
            obtain ⟨rfl, hw⟩ := hsegment hfault out hout
            dsimp only
            unfold Opened.recordSegment
            dsimp only
            cases htotal : addU64 (s.store.manifest.push st.label
                (segmentRecord d st.label ((c st).length + 1) es)).totalEvents es.length with
            | error e =>
                have hreload := (h.withFiles st (.ok (segmentBytes d es)) rfl).reload
                refine ⟨_, _, ?_, ?_, .inr ⟨⟨e, rfl⟩, hreload⟩⟩
                · erw [htotal]
                · exact congrArg AtepManifest.agentId h.saved
            | ok total =>
                refine ⟨_, _, ?_, ?_, .inl ⟨rfl, ⟨rfl, _, rfl⟩, h.add hw hfits rfl rfl⟩⟩
                · erw [htotal]
                  rw [addU64_eq htotal]
                  rfl
                · rfl
  · rw [if_neg hfits]
    exact ⟨_, _, rfl, rfl, .inr ⟨⟨_, rfl⟩, h⟩⟩

end Stored

namespace Holds

variable {s : Opened} {c : Contents d}

theorem readAllEvents_eq (h : Holds d s c) : s.store.readAllEvents d = .ok c.events := by
  rw [h.toStored.readAllEvents_eq]
  refine mapM_reread (fun e he => ?_) (fun e he => ?_)
  · obtain ⟨st, -, he⟩ := List.mem_flatMap.mp he
    obtain ⟨es, hes, he⟩ := List.mem_flatten.mp he
    exact (h.written st es hes).framed e he
  · obtain ⟨st, -, he⟩ := List.mem_flatMap.mp he
    obtain ⟨es, hes, he⟩ := List.mem_flatten.mp he
    exact (h.written st es hes).decoded e he

/-- Every event is of the store's agent. -/
theorem agent (h : Holds d s c) : ∀ e ∈ c.events, e.header.agentId = s.store.manifest.agentId := by
  intro e he
  obtain ⟨st, -, he⟩ := List.mem_flatMap.mp he
  obtain ⟨es, hes, he⟩ := List.mem_flatten.mp he
  exact (h.written st es hes).agent e he

/-- A store that stands for the contents of a session is consistent. -/
theorem consistent {s : Session d} (h : Holds d s.opened c) (hperm : c.events.Perm s.accepted) :
    s.Consistent :=
  ⟨c.events, h.readAllEvents_eq, hperm, h.agent, h.total, by rw [h.total, h.sum_records]⟩

theorem init (root agentId : String) (files : Files) :
    Holds d (Opened.init root agentId files) fun _ => [] where
  toStored := Stored.init root agentId files
  written _ _ h := absurd h List.not_mem_nil

/-- Reopening the directory leaves the contents as they are. -/
theorem reload (h : Holds d s c) :
    Holds d { s with store := { s.store with manifest := s.saved } } c where
  toStored := h.toStored.reload
  written := by
    rw [h.saved]
    exact h.written

/-- The same for contents whose events can be read and are of the store's agent. -/
theorem addSegment (h : Holds d s c) {st : StreamId} (es : List d.Event) {around : Surroundings}
    {segment : CliResult (Bytes × SegmentSummary)} (hpersist : ∀ e, around.fault ≠ .persist e)
    (hsegment : around.fault = .none → ∀ out, segment = .ok out →
      out = (segmentBytes d es, segmentSummary d es)
        ∧ Written d s.store.manifest.agentId es) :
    ∃ r s', s.addSegment st.label segment es.length around = (r, s')
      ∧ ((r = .ok () ∧ Holds d s' (c.add st es)) ∨ ((∃ e, r = .error e) ∧ Holds d s' c)) := by
  obtain ⟨r, s', hcall, hagent, ⟨hr, ⟨hfault, out, hout⟩, hstored⟩ | ⟨hr, hstored⟩⟩ :=
    h.toStored.addSegment es hpersist fun hfault out hout =>
      ⟨(hsegment hfault out hout).1, (hsegment hfault out hout).2.toStorable⟩
  · refine ⟨r, s', hcall, .inl ⟨hr, hstored, ?_⟩⟩
    rw [hagent]
    intro st' es' hes
    by_cases hst : st' = st
    · subst hst
      change es' ∈ Function.update c st' (c st' ++ [es]) st' at hes
      rw [Function.update_self] at hes
      rcases List.mem_append.mp hes with hes | hes
      · exact h.written st' es' hes
      · rw [List.mem_singleton.mp hes]
        exact (hsegment hfault out hout).2
    · change es' ∈ Function.update c st (c st ++ [es]) st' at hes
      rw [Function.update_of_ne hst] at hes
      exact h.written st' es' hes
  · refine ⟨r, s', hcall, .inr ⟨hr, hstored, ?_⟩⟩
    rw [hagent]
    exact h.written

end Holds

/-- A segment of one event. -/
theorem writeSegment_singleton (event : d.Event) : (do
    let w ← SegmentWriter.new.append d event
    w.finalize d) = writeSegment d [event] := by
  unfold writeSegment
  rw [List.foldlM_cons]
  cases happend : SegmentWriter.new.append d event with
  | error e => rfl
  | ok w => rfl

/-- The frames of a batch are those of its events, and these are of its stream. -/
theorem appendBatchFrames_ok {stream : StreamId} {events : List d.Event} {w w' : SegmentWriter}
    (h : Opened.appendBatchFrames d stream w events = .ok w') :
    (∀ e ∈ events, e.header.stream = stream)
      ∧ events.foldlM (fun w ev => SegmentWriter.append d w ev) w = .ok w' := by
  induction events generalizing w with
  | nil => exact ⟨fun e he => absurd he List.not_mem_nil, h⟩
  | cons ev rest ih =>
      unfold Opened.appendBatchFrames at h
      by_cases hstream : ev.header.stream ≠ stream
      · rw [if_pos hstream] at h
        cases h
      · rw [if_neg hstream] at h
        change (SegmentWriter.append d w ev >>= fun w =>
          Opened.appendBatchFrames d stream w rest) = .ok w' at h
        rw [bind_eq_ok] at h
        obtain ⟨w₁, happend, h⟩ := h
        obtain ⟨hrest, hfold⟩ := ih h
        refine ⟨fun e he => ?_, ?_⟩
        · rcases List.mem_cons.mp he with rfl | he
          · exact not_not.mp hstream
          · exact hrest e he
        · rw [List.foldlM_cons, happend]
          exact hfold

/-- A batch that is written is a segment of its events, and these are of its stream. -/
theorem appendBatch_segment {stream : StreamId} {events : List d.Event}
    {out : Bytes × SegmentSummary} (h : (do
      let w ← Opened.appendBatchFrames d stream SegmentWriter.new events
      w.finalize d) = .ok out) :
    (∀ e ∈ events, e.header.stream = stream) ∧ writeSegment d events = .ok out := by
  rw [bind_eq_ok] at h
  obtain ⟨w, hframes, hfinal⟩ := h
  obtain ⟨hstream, hfold⟩ := appendBatchFrames_ok hframes
  refine ⟨hstream, ?_⟩
  unfold writeSegment
  rw [hfold]
  exact hfinal

theorem writeSegment_storable {events : List d.Event} {out : Bytes × SegmentSummary}
    (h : writeSegment d events = .ok out) :
    out = (segmentBytes d events, segmentSummary d events) ∧ Storable d events := by
  obtain ⟨hframed, hcount, hbytes⟩ := writeSegment_ok h
  rw [writeSegment_eq hframed hcount hbytes] at h
  exact ⟨(Except.ok.inj h).symm, hframed, hcount, hbytes⟩

theorem writeSegment_written {agentId : String} {events : List d.Event}
    {out : Bytes × SegmentSummary} (h : writeSegment d events = .ok out)
    (hcbor : ∀ e ∈ events, ∀ buf, d.encodeEvent e = .ok buf → d.decodeEvent buf = .ok e)
    (hagent : ∀ e ∈ events, e.header.agentId = agentId) :
    out = (segmentBytes d events, segmentSummary d events) ∧ Written d agentId events := by
  obtain ⟨hout, hstorable⟩ := writeSegment_storable h
  exact ⟨hout, hstorable, hcbor, hagent⟩

/-! ## Runs -/

namespace Session

/-- The call is not one that breaks consistency: saving the manifest does not fail, and a batch
of events of its stream that is written holds events of the store's agent only. -/
def Careful (s : Session d) : Call d → Prop
  | .appendEvent _ around => ∀ e, around.fault ≠ .persist e
  | .appendBatch stream events around =>
      (∀ e, around.fault ≠ .persist e)
        ∧ (around.fault = .none → (∀ e ∈ events, e.header.stream = stream) →
          ∀ e ∈ events, e.header.agentId = s.opened.store.manifest.agentId)
  | .reopen _ _ => True

/-- The encodings of the events of a call are read back as these events. -/
def Decoded (_ : Session d) (call : Call d) : Prop :=
  ∀ e ∈ call.events, ∀ buf, d.encodeEvent e = .ok buf → d.decodeEvent buf = .ok e

/-- The store stands for the events of the calls that succeeded. -/
def Sound (s : Session d) : Prop := ∃ c, Holds d s.opened c ∧ c.events.Perm s.accepted

theorem Sound.of_call {s : Session d} {call : Call d} {c : Contents d} (st : StreamId)
    (hperm : c.events.Perm s.accepted)
    (h : ∃ r s', s.opened.call call = (r, s')
      ∧ ((r = .ok () ∧ Holds d s' (c.add st call.events)) ∨ ((∃ e, r = .error e) ∧ Holds d s' c))) :
    Sound (s.step call) := by
  obtain ⟨r, s', hcall, ⟨rfl, hholds⟩ | ⟨⟨e, rfl⟩, hholds⟩⟩ := h
  · unfold step
    rw [hcall]
    exact ⟨_, hholds, (c.events_add st call.events).trans (hperm.append_right call.events)⟩
  · unfold step
    rw [hcall]
    exact ⟨c, hholds, hperm⟩

/-- A call that appends nothing and leaves what the store stands for. -/
theorem Sound.of_kept {s : Session d} {call : Call d} {c : Contents d}
    (hperm : c.events.Perm s.accepted) (hnone : call.events = [])
    (h : Holds d (s.opened.call call).2 c) : Sound (s.step call) := by
  unfold step
  cases hcall : s.opened.call call with
  | mk r s' =>
      rw [hcall] at h
      cases r with
      | error e => exact ⟨c, h, hperm⟩
      | ok u =>
          refine ⟨c, h, ?_⟩
          rw [hnone, List.append_nil]
          exact hperm

/-- **One call** keeps the store at what it stands for. -/
theorem Sound.step {s : Session d} (h : s.Sound) {call : Call d} (hcare : s.Careful call)
    (hcbor : s.Decoded call) : Sound (s.step call) := by
  obtain ⟨c, hholds, hperm⟩ := h
  cases call with
  | appendEvent event around =>
      by_cases hagent : event.header.agentId ≠ s.opened.store.manifest.agentId
      · have hcall : s.opened.call (.appendEvent event around)
            = (.error (.internal (s!"event agent_id {event.header.agentId} " ++
              s!"does not match store agent_id {s.opened.store.manifest.agentId}")), s.opened) :=
          if_pos hagent
        exact Sound.of_call event.header.stream hperm
          ⟨_, _, hcall, .inr ⟨⟨_, rfl⟩, hholds⟩⟩
      · refine Sound.of_call event.header.stream hperm ?_
        change ∃ r s', s.opened.appendEvent d event around = (r, s') ∧ _
        unfold Opened.appendEvent
        rw [if_neg hagent, writeSegment_singleton]
        refine hholds.addSegment [event] hcare fun _ out hout => ?_
        refine writeSegment_written hout hcbor fun e he => ?_
        rw [List.mem_singleton.mp he]
        exact not_not.mp hagent
  | appendBatch stream events around =>
      by_cases hnone : events = []
      · refine Sound.of_kept hperm hnone ?_
        change Holds d (s.opened.appendBatch d stream events around).2 c
        unfold Opened.appendBatch
        rw [if_pos hnone]
        exact hholds
      · refine Sound.of_call stream hperm ?_
        change ∃ r s', s.opened.appendBatch d stream events around = (r, s') ∧ _
        unfold Opened.appendBatch
        rw [if_neg hnone]
        refine hholds.addSegment events hcare.1 fun hfault out hout => ?_
        obtain ⟨hstream, hwrite⟩ := appendBatch_segment hout
        exact writeSegment_written hwrite hcbor (hcare.2 hfault hstream)
  | reopen agentId fault =>
      refine Sound.of_kept hperm rfl ?_
      change Holds d (s.opened.reopen agentId fault).2 c
      unfold Opened.reopen
      cases fault with
      | some e => exact hholds
      | none =>
          dsimp only
          split
          · exact hholds
          · exact hholds.reload

/-- **Runs**: as long as every call is careful, the readable events are those of the calls that
succeeded, all of the store's agent, and as many as the manifest counts. -/
theorem run_consistent {root agentId : String} {files : Files} {calls : List (Call d)}
    (hcare : Along step Careful (Session.init root agentId files) calls)
    (hcbor : Along step Decoded (Session.init root agentId files) calls) :
    Consistent (run step (Session.init root agentId files) calls) := by
  have hstart : (Session.init (d := d) root agentId files).Sound :=
    ⟨fun _ => [], Holds.init root agentId files, .refl _⟩
  obtain ⟨c, hholds, hperm⟩ := run_invariant Sound
    (fun s call h hp => h.step hp.1 hp.2) hstart (hcare.and hcbor)
  exact hholds.consistent hperm

/-! ## Two runs that are not careful -/

/-- Nothing goes wrong. -/
def calm : Surroundings := ⟨.none, .error "No such file or directory"⟩

/-- Two events as a batch, and one whose segment cannot be written. -/
def carefulCalls : List (Call AtepStore.exerciseDeps) :=
  [.appendBatch .capability [AtepStore.exerciseEvent 1, AtepStore.exerciseEvent 2] calm,
    .appendEvent (AtepStore.exerciseEvent 3) { calm with fault := .writeSegment "write frame" }]

theorem exercise_decoded (payload : UInt8) (buf : Bytes)
    (h : AtepStore.exerciseDeps.encodeEvent (AtepStore.exerciseEvent payload) = .ok buf) :
    AtepStore.exerciseDeps.decodeEvent buf = .ok (AtepStore.exerciseEvent payload) := by
  cases h
  rfl

theorem run_consistent_careful :
    Consistent (run step (Session.init ".atep" "agent://acme/foo" fun _ => .error "")
      carefulCalls) := by
  refine run_consistent ⟨⟨fun e => Fault.noConfusion, fun _ _ e he => ?_⟩,
    fun e => Fault.noConfusion, trivial⟩
    ⟨fun e he buf hbuf => ?_, fun e he buf hbuf => ?_, trivial⟩
  · rcases List.mem_cons.mp he with rfl | he
    · rfl
    · cases List.mem_singleton.mp he
      rfl
  · rcases List.mem_cons.mp he with rfl | he
    · exact exercise_decoded 1 buf hbuf
    · cases List.mem_singleton.mp he
      exact exercise_decoded 2 buf hbuf
  · cases List.mem_singleton.mp he
    exact exercise_decoded 3 buf hbuf

/-- A batch that succeeds with an event of `agent://acme/foo`. -/
def foreignBatch : List (Call AtepStore.exerciseDeps) :=
  [.appendBatch .capability [AtepStore.exerciseEvent 1] calm]

/-- A call that fails because the manifest cannot be replaced. -/
def failedSave : List (Call AtepStore.exerciseDeps) :=
  [.appendEvent (AtepStore.exerciseEvent 1)
    { calm with fault := .persist (.io ".atep/manifest.json" "No space left on device") }]

set_option maxRecDepth 4000 in
/-- The batch is read from the store of another agent; the event whose call failed is read. -/
theorem careless_runs :
    ¬ Consistent (run step (Session.init ".atep" "agent://acme/bar" fun _ => .error "")
        foreignBatch)
      ∧ ¬ Consistent (run step (Session.init ".atep" "agent://acme/foo" fun _ => .error "")
        failedSave) := by
  constructor
  · rintro ⟨events, hread, -, hagent, -⟩
    have hfound : (run step (Session.init ".atep" "agent://acme/bar" fun _ => .error "")
        foreignBatch).opened.store.readAllEvents AtepStore.exerciseDeps
          = .ok [AtepStore.exerciseEvent 1] := rfl
    rw [hfound] at hread
    cases hread
    have heq := hagent _ List.mem_cons_self
    exact absurd heq (by decide)
  · rintro ⟨events, hread, hperm, -⟩
    have hfound : (run step (Session.init ".atep" "agent://acme/foo" fun _ => .error "")
        failedSave).opened.store.readAllEvents AtepStore.exerciseDeps
          = .ok [AtepStore.exerciseEvent 1] := rfl
    rw [hfound] at hread
    cases hread
    exact absurd hperm.length_eq (by decide)

end Session

end Agenomic.Atep
