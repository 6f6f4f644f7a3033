/-
  Storage/HeapFile/PageRuns.lean --- runs of operations on one heap page.

  A run starts on a page of zeros opened by the `HeapFilePage` constructor.  Next
  to the page it carries `Contents`, what every slot should read as;
  `Contents.apply` says what each operation does to it.  One step lemma for all
  operations, `exec_spec`, and every statement about runs follows from it.
-/
import Iic3413Db.Foundation.Machine
import Iic3413Db.Storage.HeapFile.Vacuum

set_option autoImplicit false

namespace Iic3413Db.Storage

open Iic3413Db.Foundation Iic3413Db.RelationalModel HeapFilePage

/-- The public operations of `HeapFilePage` that write. -/
inductive PageOp where
  | insert (record : Record) (txId : TxID) (firstRid : Option RID)
  | deletePhysically (dirPos : Nat)
  | deleteLogically (dirPos : Nat) (txId : TxID)
  | updateHeader (dirPos : Nat) (newRid : RID) (txId : TxID)
  | resetUpdate (dirPos : Nat)
  | resetFirst (dirPos : Nat)
  | vacuum (pageBuf : PageBytes)

/-- Run an operation.  Only an accepted insert returns a RID. -/
def PageOp.exec (schema : Schema) (page : Page) : PageOp → Outcome (Option RID × Page)
  | .insert record txId firstRid => tryInsertRecord page record txId firstRid
  | .deletePhysically i => (deleteRecordPhysically page i).map fun page => (none, page)
  | .deleteLogically i txId => (deleteRecordLogically page i txId).map fun page => (none, page)
  | .updateHeader i rid txId => (updateRecordHeader page i rid txId).map fun page => (none, page)
  | .resetUpdate i => (HeapFilePage.resetUpdate page i).map fun page => (none, page)
  | .resetFirst i => (HeapFilePage.resetFirst page i).map fun page => (none, page)
  | .vacuum buf => (HeapFilePage.vacuum schema page buf).map fun page => (none, page)

/-- Change the header in slot `i`, if it is live. -/
def Contents.mapHeader (cs : Contents) (i : Nat) (f : RecordHeader → RecordHeader) : Contents :=
  cs.modify i (Option.map fun entry => (f entry.1, entry.2))

/-- What an operation on page `n` that returns `out` does to the contents. -/
def Contents.apply (n : Int) (out : Option RID) (cs : Contents) : PageOp → Contents
  | .insert record txId firstRid =>
      match out with
      | none => cs
      | some _ =>
          cs.place cs.firstFree (some (newHeader n cs.firstFree txId firstRid, record.stored))
  | .deletePhysically i => cs.set i none
  | .deleteLogically i txId => cs.mapHeader i fun h => { h with tMax := txId, next := .deleted }
  | .updateHeader i rid txId => cs.mapHeader i fun h => { h with tMax := txId, next := rid }
  | .resetUpdate i => cs.mapHeader i fun h => { h with tMax := 0, next := ⟨n, i⟩ }
  | .resetFirst i => cs.mapHeader i fun h => { h with first := ⟨n, i⟩ }
  | .vacuum _ => cs.take (lastLive cs + 1)

/-- Slot `i` exists and is not physically deleted. -/
def Contents.Live (cs : Contents) (i : Nat) : Prop := ∃ entry, cs[i]? = some (some entry)

/-- What callers promise: records that match the schema, live slots, and
arguments of the types the source declares. -/
def PageOp.Legal (schema : Schema) (cs : Contents) : PageOp → Prop
  | .insert record txId firstRid => InsertFits schema record txId firstRid
  | .deletePhysically i | .resetUpdate i | .resetFirst i => cs.Live i
  | .deleteLogically i txId => cs.Live i ∧ txId < 2 ^ 64
  | .updateHeader i rid txId => cs.Live i ∧ txId < 2 ^ 64 ∧ rid.Fits
  | .vacuum _ => True

/-- Where the operations are right: the record's size does not wrap, and the page
to vacuum has a slot. -/
def PageOp.Sound (cs : Contents) : PageOp → Prop
  | .insert record _ _ => RoomFits cs.length cs.firstFree record
  | .vacuum _ => cs ≠ []
  | .deletePhysically _ | .resetUpdate _ | .resetFirst _ | .deleteLogically _ _
  | .updateHeader _ _ _ => True

/-- A page and what its slots should read as. -/
structure PageState where
  page : Page
  contents : Contents

/-- A page of zeros, opened. -/
def PageState.Fresh (s : PageState) : Prop :=
  ∃ p : Page, p.bytes = (fun _ => 0) ∧
    (-2 ^ 31 ≤ p.pageId.pageNumber ∧ p.pageId.pageNumber < 2 ^ 31) ∧
    construct p = .ok s.page ∧ s.contents = []

/-- Legal operations in the range where they are right. -/
def pageMachine (schema : Schema) : Machine PageState PageOp where
  init := PageState.Fresh
  step s op s' := op.Legal schema s.contents ∧ op.Sound s.contents ∧
    ∃ out, op.exec schema s.page = .ok (out, s'.page) ∧
      s'.contents = s.contents.apply s.page.pageId.pageNumber out op

/-- The invariant of runs. -/
structure PageState.Valid (schema : Schema) (s : PageState) : Prop where
  number : -2 ^ 31 ≤ s.page.pageId.pageNumber ∧ s.page.pageId.pageNumber < 2 ^ 31
  represents : ∃ sp : SlottedPage schema, Represents sp s.page ∧ sp.contents = s.contents

section Steps

variable {schema : Schema}

/-! ## One operation -/

theorem mapHeader_eq_set {cs : Contents} {i : Nat} {h : RecordHeader} {vs : List Value}
    (f : RecordHeader → RecordHeader) (hi : cs[i]? = some (some (h, vs))) :
    cs.mapHeader i f = cs.set i (some (f h, vs)) := by
  obtain ⟨hlt, _⟩ := List.getElem?_eq_some_iff.mp hi
  apply List.ext_getElem?
  intro j
  rw [Contents.mapHeader, List.getElem?_modify, List.getElem?_set]
  split
  · rename_i hij
    subst hij
    rw [hi]
    rfl
  · exact Option.map_id' ..

theorem contents_vacuumed (sp : SlottedPage schema) :
    sp.vacuumed.contents = sp.contents.take (lastLive sp.contents + 1) := by
  have hlast : lastLive sp.contents = lastLive sp.slots := lastLive_map sp.slots _
  have hcompact : (compact sp.slots).map (Option.map fun t => (t.header, t.values)) =
      sp.contents := by
    apply List.ext_getElem?
    intro i
    simp only [compact, SlottedPage.contents, List.getElem?_map, List.getElem?_mapIdx,
      Option.map_map]
    cases sp.slots[i]? with
    | none => rfl
    | some slot => cases slot <;> rfl
  rw [hlast, ← hcompact, ← List.map_take]
  rfl

/-- A represented page after a sound operation: the operation returns, and the
page represents what `Contents.apply` says. -/
theorem exec_spec {s : PageState} (hs : s.Valid schema) {op : PageOp}
    (hlegal : op.Legal schema s.contents) (hsound : op.Sound s.contents) :
    ∃ out p', op.exec schema s.page = .ok (out, p') ∧ p'.pageId = s.page.pageId ∧
      (out = none → ∀ record txId firstRid, op = .insert record txId firstRid → p' = s.page) ∧
      PageState.Valid schema
        ⟨p', s.contents.apply s.page.pageId.pageNumber out op⟩ := by
  obtain ⟨hn, sp, hr, hcontents⟩ := hs
  -- the shape all operations but the insert share
  have hsimple : ∀ (r : Outcome Page) (cs' : Contents),
      (∃ (p' : Page) (sp' : SlottedPage schema), r = .ok p' ∧ p'.pageId = s.page.pageId ∧
        Represents sp' p' ∧ sp'.contents = cs') →
      ∃ p', r.map (fun page => ((none : Option RID), page)) = .ok (none, p') ∧
        p'.pageId = s.page.pageId ∧ PageState.Valid schema ⟨p', cs'⟩ := by
    rintro r cs' ⟨p', sp', rfl, hpage, hrep, rfl⟩
    exact ⟨p', rfl, hpage, hpage ▸ hn, sp', hrep, rfl⟩
  cases op with
  | insert record txId firstRid =>
      have hroom : RoomFits sp.slots.length sp.contents.firstFree record := by
        rw [← sp.contents_length, hcontents]
        exact hsound
      rcases tryInsertRecord_spec hr hlegal hn hroom with
        ⟨_, hno⟩ | ⟨p', sp', _, hyes, hpage, hrep, heq⟩
      · exact ⟨none, s.page, hno, rfl, fun _ _ _ _ _ => rfl, hn, sp, hr, hcontents⟩
      · refine ⟨some _, p', hyes, hpage, fun h => (by cases h), hpage ▸ hn, sp', hrep, ?_⟩
        rw [heq, hcontents]
        rfl
  | deletePhysically i =>
      obtain ⟨entry, hi⟩ := hlegal
      obtain ⟨hlt, _⟩ := List.getElem?_eq_some_iff.mp hi
      rw [← hcontents, sp.contents_length] at hlt
      obtain ⟨p', hexec, hpage, hvalid⟩ := hsimple _ _ (deleteRecordPhysically_spec hr hlt)
      exact ⟨none, p', hexec, hpage, fun _ _ _ _ h => (by cases h), hcontents ▸ hvalid⟩
  | deleteLogically i txId =>
      obtain ⟨⟨⟨h, vs⟩, hi⟩, htx⟩ := hlegal
      obtain ⟨t, ht, rfl, rfl⟩ := SlottedPage.contents_live (hcontents ▸ hi)
      obtain ⟨p', hexec, hpage, hvalid⟩ := hsimple _ _ (deleteRecordLogically_spec hr ht htx)
      refine ⟨none, p', hexec, hpage, fun _ _ _ _ h => (by cases h), ?_⟩
      rw [Contents.apply, mapHeader_eq_set _ hi, ← hcontents]
      exact hvalid
  | updateHeader i rid txId =>
      obtain ⟨⟨⟨h, vs⟩, hi⟩, htx, hrid⟩ := hlegal
      obtain ⟨t, ht, rfl, rfl⟩ := SlottedPage.contents_live (hcontents ▸ hi)
      obtain ⟨p', hexec, hpage, hvalid⟩ := hsimple _ _ (updateRecordHeader_spec hr ht htx hrid)
      refine ⟨none, p', hexec, hpage, fun _ _ _ _ h => (by cases h), ?_⟩
      rw [Contents.apply, mapHeader_eq_set _ hi, ← hcontents]
      exact hvalid
  | resetUpdate i =>
      obtain ⟨⟨h, vs⟩, hi⟩ := hlegal
      obtain ⟨t, ht, rfl, rfl⟩ := SlottedPage.contents_live (hcontents ▸ hi)
      obtain ⟨p', hexec, hpage, hvalid⟩ := hsimple _ _ (resetUpdate_spec hr ht hn)
      refine ⟨none, p', hexec, hpage, fun _ _ _ _ h => (by cases h), ?_⟩
      rw [Contents.apply, mapHeader_eq_set _ hi, ← hcontents]
      exact hvalid
  | resetFirst i =>
      obtain ⟨⟨h, vs⟩, hi⟩ := hlegal
      obtain ⟨t, ht, rfl, rfl⟩ := SlottedPage.contents_live (hcontents ▸ hi)
      obtain ⟨p', hexec, hpage, hvalid⟩ := hsimple _ _ (resetFirst_spec hr ht hn)
      refine ⟨none, p', hexec, hpage, fun _ _ _ _ h => (by cases h), ?_⟩
      rw [Contents.apply, mapHeader_eq_set _ hi, ← hcontents]
      exact hvalid
  | vacuum buf =>
      have hne : sp.slots ≠ [] := by
        intro hnil
        apply hsound
        rw [← hcontents, SlottedPage.contents, hnil]
        rfl
      obtain ⟨p', hvac, hpage, hrep⟩ := vacuum_spec hr hne buf
      obtain ⟨p'', hexec, hpage', hvalid⟩ :=
        hsimple _ _ ⟨p', sp.vacuumed, hvac, hpage, hrep, contents_vacuumed sp⟩
      refine ⟨none, p'', hexec, hpage', fun _ _ _ _ h => (by cases h), ?_⟩
      rw [Contents.apply, ← hcontents]
      exact hvalid

theorem holds_zero (n : PageId) (a : Nat) (pins : Int) (chance dirty : Bool) :
    (Page.mk n (fun _ => 0) pins chance dirty).bytes.Holds a (intBytes 4 0) := by
  show Block.slice _ a 4 = _
  simp [Block.slice, Block.byteAt, List.range, List.range.loop, intBytes, leBytes]

/-- The constructor gives a page of zeros its free space. -/
theorem construct_zero {p : Page} (hzero : p.bytes = fun _ => 0) :
    construct p = .ok (p.patch 4 (intBytes 4 4088)) := by
  obtain ⟨n, bytes, pins, chance, dirty⟩ := p
  subst hzero
  have hcount := readInt32_of_holds (a := 0) (o := 0) rfl (holds_zero n 0 pins chance dirty)
    (by omega) (by omega)
  have hfree := readInt32_of_holds (a := 4) (o := 4) rfl (holds_zero n 4 pins chance dirty)
    (by omega) (by omega)
  simp only [construct, getDirCount, hcount, Outcome.ok_bind, getFreeSpace, hfree, if_true]
  exact writeInt32_patch rfl (by omega)

/-- A page just opened represents the page with no slot. -/
theorem valid_fresh {s : PageState} (h : s.Fresh) : s.Valid schema := by
  obtain ⟨page, contents⟩ := s
  obtain ⟨p, hzero, hn, hconstruct, rfl⟩ := h
  rw [construct_zero hzero] at hconstruct
  obtain rfl := Except.ok.inj hconstruct
  obtain ⟨n, bytes, pins, chance, dirty⟩ := p
  subst hzero
  refine ⟨hn, ⟨[], 4088, by decide, fun i t h => ?_, fun i j t u h => ?_, fun i t h => ?_⟩,
    ⟨?_, ?_, fun i slot h => ?_⟩, ?_⟩
  · cases h
  · cases h
  · cases h
  · exact (holds_zero n 0 pins chance dirty).splice_of_disjoint (by simp)
  · exact Block.holds_splice_self (by simp)
  · cases h
  · rfl

/-- Every state of a run is valid. -/
theorem run_valid {s₀ s : PageState} {ops : List PageOp} (h₀ : s₀.Fresh)
    (hrun : (pageMachine schema).Run s₀ ops s) : s.Valid schema := by
  have hstep : ∀ s op s', PageState.Valid schema s → (pageMachine schema).step s op s' →
      PageState.Valid schema s' := by
    rintro s op ⟨page', contents'⟩ hs ⟨hlegal, hsound, out, hexec, hcontents⟩
    obtain ⟨out', p', hexec', _, _, hvalid⟩ := exec_spec hs hlegal hsound
    rw [hexec] at hexec'
    cases hexec'
    dsimp only at hcontents
    rw [hcontents]
    exact hvalid
  exact hrun.invariant hstep (valid_fresh h₀)

end Steps

/-! ## What a reader sees -/

/-- The bytes of the values after a tuple header. -/
def valuesSize (vs : List Value) : Nat := (vs.map valueSize).sum

/-- The page reads as its contents say, and its tuples lie clear of the directory
and of each other. -/
structure PageState.Reads (schema : Schema) (s : PageState) : Prop where
  count : getDirCount s.page = .ok s.contents.length
  layout : ∃ (freeSpace : Nat) (offset : Nat → Nat), getFreeSpace s.page = .ok freeSpace ∧
    (∀ (i : Nat) (h : RecordHeader) (vs : List Value), s.contents[i]? = some (some (h, vs)) →
      getDir s.page i = .ok (offset i) ∧ 8 + 4 * s.contents.length + freeSpace ≤ offset i ∧
        offset i + (32 + valuesSize vs) ≤ 4096) ∧
    ∀ (i j : Nat) (h h' : RecordHeader) (vs vs' : List Value),
      s.contents[i]? = some (some (h, vs)) → s.contents[j]? = some (some (h', vs')) → i ≠ j →
      offset i + (32 + valuesSize vs) ≤ offset j ∨ offset j + (32 + valuesSize vs') ≤ offset i
  live : ∀ (i : Nat) (h : RecordHeader) (vs : List Value), s.contents[i]? = some (some (h, vs)) →
    getRecord schema s.page i = .ok ⟨vs⟩ ∧ getRecordHeader s.page i = .ok (some h)
  dead : ∀ (i : Nat), s.contents[i]? = some none →
    getRecord schema s.page i = .ok Record.empty ∧ getRecordHeader s.page i = .ok none

/-- The slot whose tuple or header an operation is about. -/
def PageOp.target : PageOp → Option Nat
  | .deletePhysically i | .deleteLogically i _ | .updateHeader i _ _ | .resetUpdate i
  | .resetFirst i => some i
  | .insert _ _ _ | .vacuum _ => none

section Reading

variable {schema : Schema} {s : PageState}

theorem PageState.Valid.reads (hs : s.Valid schema) : s.Reads schema := by
  obtain ⟨_, sp, hr, hcontents⟩ := hs
  have hlive : ∀ (i : Nat) (h : RecordHeader) (vs : List Value),
      s.contents[i]? = some (some (h, vs)) →
      ∃ t, sp.slots[i]? = some (some t) ∧ t.header = h ∧ t.values = vs := by
    intro i h vs hi
    exact SlottedPage.contents_live (hcontents ▸ hi)
  have hsize : ∀ t : Tuple, t.size = 32 + valuesSize t.values := fun _ => rfl
  have hlen : s.contents.length = sp.slots.length := by rw [← hcontents, sp.contents_length]
  constructor
  case count => rw [hlen, getDirCount_eq hr]
  case layout =>
    refine ⟨sp.freeSpace, fun i => ((sp.slots[i]?.join).map Tuple.offset).getD 0,
      getFreeSpace_eq hr, ?_, ?_⟩
    · intro i h vs hi
      obtain ⟨t, ht, rfl, rfl⟩ := hlive i h vs hi
      have hin := sp.inside i t ht
      rw [← hsize, hlen]
      simp only [ht, Option.join_some, Option.map_some, Option.getD_some]
      exact ⟨getDir_live hr ht, hin⟩
    · intro i j h h' vs vs' hi hj hne
      obtain ⟨t, ht, rfl, rfl⟩ := hlive i h vs hi
      obtain ⟨u, hu, rfl, rfl⟩ := hlive j h' vs' hj
      rw [← hsize, ← hsize]
      simp only [ht, hu, Option.join_some, Option.map_some, Option.getD_some]
      exact sp.disjoint i j t u ht hu hne
  case live =>
    intro i h vs hi
    obtain ⟨t, ht, rfl, rfl⟩ := hlive i h vs hi
    exact ⟨getRecord_live hr ht, getRecordHeader_live hr ht⟩
  case dead =>
    intro i hi
    have hdead : sp.slots[i]? = some none := SlottedPage.contents_dead (hcontents ▸ hi)
    exact ⟨getRecord_dead hr hdead, getRecordHeader_dead hr hdead⟩

/-- An operation other than a vacuum keeps what another live slot holds. -/
theorem apply_getElem?_of_ne_target {cs : Contents} {op : PageOp} {j : Nat} {n : Int}
    {out : Option RID} {entry : RecordHeader × List Value} (hj : cs[j]? = some (some entry))
    (hne : op.target ≠ some j) : (cs.apply n out op)[j]? = some (some entry) := by
  obtain ⟨hlt, hget⟩ := List.getElem?_eq_some_iff.mp hj
  have hmap : ∀ (i : Nat) (f : RecordHeader → RecordHeader), i ≠ j →
      (cs.mapHeader i f)[j]? = some (some entry) := by
    intro i f hij
    simp only [Contents.mapHeader, List.getElem?_modify, if_neg hij, hj]
    rfl
  cases op with
  | insert record txId firstRid =>
      cases out with
      | none => exact hj
      | some rid =>
          rw [Contents.apply, Contents.place]
          split
          · rename_i hfree
            rw [List.getElem?_set, if_neg]
            · exact hj
            · -- the slot that was filled was dead
              rintro rfl
              have hnone : (cs[cs.firstFree]).isNone = true := List.findIdx_getElem (w := hfree)
              rw [hget] at hnone
              cases hnone
          · rwa [List.getElem?_append_left hlt]
  | deletePhysically i =>
      have hij : i ≠ j := fun h => hne (congrArg some h)
      rw [Contents.apply, List.getElem?_set, if_neg hij]
      exact hj
  | deleteLogically i txId =>
      rw [Contents.apply]
      exact hmap i _ fun h => hne (congrArg some h)
  | updateHeader i rid txId =>
      rw [Contents.apply]
      exact hmap i _ fun h => hne (congrArg some h)
  | resetUpdate i =>
      rw [Contents.apply]
      exact hmap i _ fun h => hne (congrArg some h)
  | resetFirst i =>
      rw [Contents.apply]
      exact hmap i _ fun h => hne (congrArg some h)
  | vacuum buf =>
      have hle := le_lastLive hj
      rw [Contents.apply, List.getElem?_take, if_pos (by omega)]
      exact hj

/-- In every run the page reads as its contents say, and every further legal
operation that is right returns: no access leaves the page, a refused insert
changes nothing, and the other live slots read as before. -/
theorem run_reads {s₀ : PageState} {ops : List PageOp} (h₀ : s₀.Fresh)
    (hrun : (pageMachine schema).Run s₀ ops s) :
    s.Reads schema ∧
      ∀ op : PageOp, op.Legal schema s.contents → op.Sound s.contents →
        ∃ out p', op.exec schema s.page = .ok (out, p') ∧
          PageState.Reads schema ⟨p', s.contents.apply s.page.pageId.pageNumber out op⟩ ∧
          (∀ record txId firstRid, op = .insert record txId firstRid →
            out = none → p'.bytes = s.page.bytes) ∧
          ∀ (j : Nat) (entry : RecordHeader × List Value),
            s.contents[j]? = some (some entry) → op.target ≠ some j →
            getRecord schema p' j = getRecord schema s.page j ∧
              getRecordHeader p' j = getRecordHeader s.page j := by
  have hvalid := run_valid h₀ hrun
  refine ⟨hvalid.reads, ?_⟩
  intro op hlegal hsound
  obtain ⟨out, p', hexec, _, hrefuse, hvalid'⟩ := exec_spec hvalid hlegal hsound
  refine ⟨out, p', hexec, hvalid'.reads, ?_, ?_⟩
  · intro record txId firstRid hop hout
    rw [hrefuse hout record txId firstRid hop]
  · rintro j ⟨h, vs⟩ hj hne
    obtain ⟨hrec, hhead⟩ := hvalid.reads.live j h vs hj
    obtain ⟨hrec', hhead'⟩ :=
      hvalid'.reads.live j h vs (apply_getElem?_of_ne_target hj hne)
    exact ⟨hrec'.trans hrec.symm, hhead'.trans hhead.symm⟩

end Reading

/-! ## A page in use -/

/-- A table of one integer column, with the RID column the catalog adds. -/
def oneColumn : Schema := ⟨[⟨"a", .int⟩, ⟨"RID", .rid⟩]⟩

/-- Page 0 of a new file, opened. -/
def openedPage : Page := Page.patch ⟨⟨⟨3⟩, 0⟩, fun _ => 0, 1, true, false⟩ 4 (intBytes 4 4088)

theorem opened_fresh : PageState.Fresh ⟨openedPage, []⟩ :=
  ⟨_, rfl, ⟨by decide, by decide⟩, construct_zero rfl, rfl⟩

theorem insert_legal (i : Int) (hi : (Value.int i).Fits) (cs : Contents) :
    PageOp.Legal oneColumn cs (.insert ⟨[.int i]⟩ 1 none) where
  values v hv := by
    obtain rfl := List.mem_singleton.mp hv
    exact hi
  columns := .int rfl hi (.skip (.inl rfl) .nil)
  txId := by norm_num
  firstRid _ h := by cases h

/-- `run_reads` over a run of one insert. -/
theorem run_reads_insert : ∃ s,
    (pageMachine oneColumn).Run ⟨openedPage, []⟩ [.insert ⟨[.int 7]⟩ 1 none] s ∧
      s.Reads oneColumn := by
  have hlegal := insert_legal 7 (by norm_num [Value.Fits]) []
  have hsound : PageOp.Sound [] (.insert ⟨[.int 7]⟩ 1 none) := by
    norm_num [PageOp.Sound, RoomFits, insertSize, valueSize]
  obtain ⟨out, p', hexec, _⟩ :=
    exec_spec (s := ⟨openedPage, []⟩) (valid_fresh opened_fresh) hlegal hsound
  have hrun := Machine.Run.single (M := pageMachine oneColumn) (s := ⟨openedPage, []⟩)
    (t := ⟨p', _⟩) ⟨hlegal, hsound, out, hexec, rfl⟩
  exact ⟨_, hrun, (run_reads opened_fresh hrun).1⟩

/-! ## A record whose size wraps -/

/-- A table of `n` integer columns. -/
def wideSchema (n : Nat) : Schema := ⟨List.replicate n ⟨"a", .int⟩ ++ [⟨"RID", .rid⟩]⟩

/-- A row of `n` zeros. -/
def wideRecord (n : Nat) : Record := ⟨List.replicate n (.int 0)⟩

theorem wideRecord_legal (n : Nat) (cs : Contents) :
    PageOp.Legal (wideSchema n) cs (.insert (wideRecord n) 1 none) where
  values v hv := by
    rw [List.eq_of_mem_replicate hv]
    norm_num [Value.Fits]
  columns := by
    have hstored : (wideRecord n).stored = List.replicate n (.int 0) := by
      simp [Record.stored, wideRecord, Value.isRid]
    rw [hstored, wideSchema]
    induction n with
    | zero => exact .skip (.inl rfl) .nil
    | succ n ih =>
        refine .int rfl (by norm_num [Value.Fits]) (ih ?_)
        simp [Record.stored, wideRecord, Value.isRid]
  txId := by norm_num
  firstRid _ h := by cases h

/-- 269484032 integers take `2^31 + 2^23` bytes.  In the `int32_t` that is
negative, so the page accepts them, and the first write leaves the page. -/
theorem tryInsertRecord_wide_faults :
    PageState.Fresh ⟨openedPage, []⟩ ∧
      PageOp.Legal (wideSchema 269484032) [] (.insert (wideRecord 269484032) 1 none) ∧
      PageOp.exec (wideSchema 269484032) openedPage (.insert (wideRecord 269484032) 1 none) =
        .error Page.outOfBounds := by
  refine ⟨opened_fresh, wideRecord_legal _ _, ?_⟩
  have hvalid : PageState.Valid (wideSchema 269484032) ⟨openedPage, []⟩ :=
    valid_fresh opened_fresh
  have hneeded : neededRecordSize (wideRecord 269484032).values = -2139095040 := by
    rw [neededRecordSize_eq, wideRecord, List.map_replicate, List.sum_replicate]
    rfl
  have hfree : getFreeSpace openedPage = .ok 4088 :=
    readInt32_of_holds (a := 4) rfl (Block.holds_splice_self (by simp)) (by omega) (by omega)
  have hset : ∀ (p : Page) (v : Int), setFreeSpace p v = .ok (p.patch 4 (intBytes 4 v)) :=
    fun p v => writeInt32_patch rfl (by omega)
  have hcount : ∀ (p : Page) (v : Int), setDirCount p v = .ok (p.patch 0 (intBytes 4 v)) :=
    fun p v => writeInt32_patch rfl (by omega)
  have hdir : ∀ (p : Page) (v : Int), setDir p 0 v = .ok (p.patch 8 (intBytes 4 v)) :=
    fun p v => writeInt32_patch (by simp [headerSize, dirSize]) (by omega)
  have hout : ∀ (p : Page) (v : Int), p.writeInt64 (2139099104 + tMinOffset) v =
      .error Page.outOfBounds := by
    intro p v
    rw [Page.writeInt64, Page.write, if_neg]
    rintro ⟨_, h⟩
    simp [tMinOffset, Page.size] at h
  have hzero : getDirCount openedPage = .ok 0 := hvalid.reads.count
  have hsize : int32 (-2139095040 + tupleHeaderSize + dirSize) = -2139095004 := by decide
  have hfree' : int32 (4088 - -2139095004) = 2139099092 := by decide
  have hoffset : int32 (headerSize + dirSize * (0 + 1) + 2139099092) = 2139099104 := by decide
  simp only [PageOp.exec, tryInsertRecord, hneeded, hzero, Outcome.ok_bind, Int.toNat_zero,
    findDirPos, hfree, lt_irrefl, if_false, hsize]
  rw [if_neg (by norm_num)]
  simp only [hcount, hfree', hset, hoffset, Outcome.ok_bind, writeTuple, hdir, hout,
    Outcome.error_bind]

end Iic3413Db.Storage
