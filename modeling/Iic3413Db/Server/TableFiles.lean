/-
  Server/TableFiles.lean --- the heap files of the tables, over any number of lives of the
  server process.

  `create_table` opens the file of its table, an abort deletes the files of the transaction's
  tables, and the constructor of `Catalog` opens the file of every table it reads.  `Site` puts
  the catalog and the folder together.  `pages` is history: what was last written to each page
  of a table since the table was created, in any life.
-/
import Iic3413Db.Server.Lifetimes
import Iic3413Db.System.VolumeRuns

set_option autoImplicit false

namespace Iic3413Db.Server

open Iic3413Db.Foundation Iic3413Db.RelationalModel Iic3413Db.Storage
open Iic3413Db.System (Catalog TableId TableInfo TableColumn FileName Volume VolumeEvent Archive
  Request zeroPage)

/-! ## The names of the files -/

theorem digit_range {n : Nat} {c : Char} (hc : c ∈ Nat.toDigits 10 n) :
    48 ≤ c.toNat ∧ c.toNat ≤ 57 :=
  Char.isDigit_iff_toNat.mp (Nat.isDigit_of_mem_toDigits (by decide) (by decide) hc)

/-- The bytes of the digits of a number tell the number. -/
theorem digits_injective {m n : Nat}
    (h : (Nat.toDigits 10 m).map (fun c => UInt8.ofNat c.toNat) =
      (Nat.toDigits 10 n).map (fun c => UInt8.ofNat c.toNat)) : m = n := by
  have hback (k : Nat) : ((Nat.toDigits 10 k).map fun c => UInt8.ofNat c.toNat).map
      (fun b => Char.ofNat b.toNat) = Nat.toDigits 10 k := by
    conv_rhs => rw [← List.map_id (Nat.toDigits 10 k)]
    rw [List.map_map]
    refine List.map_congr_left fun c hc => ?_
    obtain ⟨_, hle⟩ := digit_range hc
    have hbyte : (UInt8.ofNat c.toNat).toNat = c.toNat := by
      rw [UInt8.toNat_ofNat']
      omega
    show Char.ofNat (UInt8.ofNat c.toNat).toNat = c
    rw [hbyte, Char.ofNat_toNat]
  have hdigits : Nat.toDigits 10 m = Nat.toDigits 10 n := by
    rw [← hback m, ← hback n, h]
  calc m = Nat.ofDigitChars 10 (Nat.toDigits 10 m) 0 := Nat.ofDigitChars_ten_toDigits.symm
    _ = Nat.ofDigitChars 10 (Nat.toDigits 10 n) 0 := by rw [hdigits]
    _ = n := Nat.ofDigitChars_ten_toDigits

/-- Tables with ids of their own have files of their own. -/
theorem fileName_tableId {i j : TableInfo} (h : fileName i = fileName j) :
    i.tableId = j.tableId := by
  -- the digits end at the first underscore
  have hdigits (info : TableInfo) : (fileName info).takeWhile (fun b => b ≠ 95) =
      (Nat.toDigits 10 info.tableId).map fun c => UInt8.ofNat c.toNat := by
    have hlist : (toString info.tableId).toList = Nat.toDigits 10 info.tableId := Nat.toList_repr
    rw [fileName, hlist, List.append_assoc, List.append_assoc, List.takeWhile_append_of_pos]
    · simp
    · intro b hb
      obtain ⟨c, hc, rfl⟩ := List.mem_map.mp hb
      obtain ⟨_, hle⟩ := digit_range hc
      have hne : UInt8.ofNat c.toNat ≠ 95 := by
        intro heq
        have hnat := congrArg UInt8.toNat heq
        rw [UInt8.toNat_ofNat'] at hnat
        simp at hnat
        omega
      exact decide_eq_true hne
  refine digits_injective ?_
  rw [← hdigits i, ← hdigits j, h]

theorem fileName_ne_nil (info : TableInfo) : fileName info ≠ [] := by
  simp [fileName]

theorem fileName_same {i j : TableInfo} (h : SameTable i j) : fileName i = fileName j := by
  rw [fileName, fileName, h.tableId, h.name]

/-! ## The catalog and its folder -/

/-- The catalog, the folder, and `table_info->heap_file->file_id` of each table. -/
structure Site where
  installation : Installation
  volume : Volume
  fileIds : TableId → Option FileId
  pages : TableId → Nat → PageBytes

def Site.catalog (s : Site) : Catalog := s.installation.process.catalog

inductive SiteEvent where
  | process (e : ProcessEvent)
  | request (r : Request)
  | restart

/-- `Catalog::get_file_id`, whatever descriptor the kernel has for a file that is to be opened. -/
def OpensFile (v : Volume) (info : TableInfo) (fileId : FileId) (v' : Volume) : Prop :=
  (∃ fd, Volume.machine.step v (.getFileId (fileName info) fd) v') ∧
    v'.folder.find (fileName info) = some fileId

/-- The loop of `Catalog::Catalog`, as the files see it. -/
inductive OpenFiles : Volume → (TableId → Option FileId) → List TableInfo →
    Volume → (TableId → Option FileId) → Prop
  | nil {v : Volume} {fileIds : TableId → Option FileId} : OpenFiles v fileIds [] v fileIds
  | cons {v v₁ v' : Volume} {fileIds fileIds' : TableId → Option FileId} {info : TableInfo}
      {infos : List TableInfo} {fileId : FileId} (hopen : OpensFile v info fileId v₁)
      (hrest : OpenFiles v₁ (Function.update fileIds info.tableId (some fileId)) infos
        v' fileIds') :
      OpenFiles v fileIds (info :: infos) v' fileIds'

/-- The loop of `abort_in_progress_tables`. -/
inductive DeleteFiles : Volume → (TableId → Option FileId) → List TableInfo →
    Volume → (TableId → Option FileId) → Prop
  | nil {v : Volume} {fileIds : TableId → Option FileId} : DeleteFiles v fileIds [] v fileIds
  | cons {v v₁ v' : Volume} {fileIds fileIds' : TableId → Option FileId} {info : TableInfo}
      {infos : List TableInfo} {fileId : FileId} (hid : fileIds info.tableId = some fileId)
      (hdelete : Volume.machine.step v (.deleteFile fileId) v₁)
      (hrest : DeleteFiles v₁ (Function.update fileIds info.tableId none) infos v' fileIds') :
      DeleteFiles v fileIds (info :: infos) v' fileIds'

/-- What a request leaves of the history. -/
def written (fileIds : TableId → Option FileId) (pages : TableId → Nat → PageBytes) :
    Request → TableId → Nat → PageBytes
  | .write h offset data => fun tableId =>
      if fileIds tableId = some h.pageId.fileId then
        let n := h.pageId.pageNumber.toNat
        Function.update (pages tableId) n ((pages tableId n).splice offset.toNat data)
      else pages tableId
  | .getPage _ | .unpin _ | .flush => pages

/-- No file is opened or deleted. -/
def ProcessEvent.KeepsFiles : ProcessEvent → Prop
  | .call _ .addTable | .call _ .dropTables | .destroyOne => False
  | _ => True

inductive SiteStep : Site → SiteEvent → Site → Prop
  | process {file : List UInt8} {p p' : Process} {v : Volume} {fileIds : TableId → Option FileId}
      {pages : TableId → Nat → PageBytes} {e : ProcessEvent} (hkeeps : e.KeepsFiles)
      (hstep : ProcessStep p e p') :
      SiteStep ⟨⟨file, p⟩, v, fileIds, pages⟩ (.process e) ⟨⟨file, p'⟩, v, fileIds, pages⟩
  /-- The history of a new table begins with zeros. -/
  | addTable {file : List UInt8} {p p' : Process} {v v' : Volume}
      {fileIds : TableId → Option FileId} {pages : TableId → Nat → PageBytes} {txId : TxID}
      {name : List UInt8} {columns : List TableColumn} {tableId : TableId} {fileId : FileId}
      (hthread : p.server.threads txId = .numbered name columns tableId)
      (hstep : ProcessStep p (.call txId .addTable) p')
      (hopen : OpensFile v ⟨name, columns, tableId, 0⟩ fileId v') :
      SiteStep ⟨⟨file, p⟩, v, fileIds, pages⟩ (.process (.call txId .addTable))
        ⟨⟨file, p'⟩, v', Function.update fileIds tableId (some fileId),
          Function.update pages tableId fun _ => zeroPage⟩
  | dropTables {file : List UInt8} {p p' : Process} {v v' : Volume}
      {fileIds fileIds' : TableId → Option FileId} {pages : TableId → Nat → PageBytes}
      {txId : TxID} (hstep : ProcessStep p (.call txId .dropTables) p')
      (hdelete : DeleteFiles v fileIds (p.catalog.inProcessTables txId) v' fileIds') :
      SiteStep ⟨⟨file, p⟩, v, fileIds, pages⟩ (.process (.call txId .dropTables))
        ⟨⟨file, p'⟩, v', fileIds', pages⟩
  | destroyOne {file : List UInt8} {p p' : Process} {v v' : Volume}
      {fileIds fileIds' : TableId → Option FileId} {pages : TableId → Nat → PageBytes}
      {txId : TxID} {left : List TxID} {tx : Transaction}
      (hphase : p.phase = .closing (txId :: left))
      (htx : p.server.globals.activeTransactions txId = some tx)
      (hstep : ProcessStep p .destroyOne p')
      (hdelete : DeleteFiles v fileIds
        (if tx.state = .committed then [] else p.catalog.inProcessTables txId) v' fileIds') :
      SiteStep ⟨⟨file, p⟩, v, fileIds, pages⟩ (.process .destroyOne)
        ⟨⟨file, p'⟩, v', fileIds', pages⟩
  /-- A page of a heap file. -/
  | request {i : Installation} {v v' : Volume} {fileIds : TableId → Option FileId}
      {pages : TableId → Nat → PageBytes} {r : Request}
      (hstep : Volume.machine.step v (.request r) v') :
      SiteStep ⟨i, v, fileIds, pages⟩ (.request r) ⟨i, v', fileIds, written fileIds pages r⟩
  /-- `~BufferManager` and `BufferManager`, and then `Catalog`. -/
  | restart {i : Installation} {file : List UInt8} {c : Catalog} {v v₁ v' : Volume}
      {fileIds fileIds' : TableId → Option FileId} {pages : TableId → Nat → PageBytes}
      {data : List PageBytes} (hlife : LifeStep i .restart ⟨file, .start c⟩)
      (hstop : Volume.machine.step v (.restart data) v₁)
      (hopen : OpenFiles v₁ (fun _ => none) c.tables.entries v' fileIds') :
      SiteStep ⟨i, v, fileIds, pages⟩ .restart ⟨⟨file, .start c⟩, v', fileIds', pages⟩

/-- A database from its first start, in a folder without files of tables. -/
def sites : Machine Site SiteEvent where
  init s := s.installation = ⟨[], .start .new⟩ ∧ s.volume.Fresh ∧
    (∀ info, s.volume.folder.entries (fileName info) = none) ∧ s.fileIds = fun _ => none
  step := SiteStep

/-! ## Tables and their files -/

/-- The tables in `live` have the files of the folder that have a table's name, and those in
`opened` have them open. -/
structure Stored (live opened : TableInfo → Prop) (fileIds : TableId → Option FileId)
    (pages : TableId → Nat → PageBytes) (a : Archive) (v : Volume) : Prop where
  kept : System.Kept a v
  distinct : ∀ i j, live i → live j → i.tableId = j.tableId → SameTable i j
  stands : ∀ i, opened i → live i
  found : ∀ i, opened i → ∃ fileId, fileIds i.tableId = some fileId ∧
    (fileName i, fileId) ∈ a.names
  named : ∀ e ∈ a.names, ∃ i, opened i ∧ fileName i = e.1 ∧ fileIds i.tableId = some e.2
  known : ∀ tableId fileId, fileIds tableId = some fileId → ∃ i, opened i ∧ i.tableId = tableId
  contents : ∀ i, live i → a.contents (fileName i) = pages i.tableId
  gone : ∀ i, (∀ j, live j → fileName j ≠ fileName i) → v.folder.entries (fileName i) = none

section Files

variable {live opened : TableInfo → Prop} {fileIds : TableId → Option FileId}
  {pages : TableId → Nat → PageBytes} {a : Archive} {v v' : Volume}

/-- The event of a volume, on the archive. -/
theorem kept_step {e : VolumeEvent} (h : System.Kept a v) (hstep : Volume.machine.step v e v') :
    System.Kept (a.apply e) v' := by
  obtain ⟨hlegal, hwrap, hexec⟩ := hstep
  obtain ⟨v'', hexec', hkept⟩ := h.exec hlegal hwrap
  cases hexec.symm.trans hexec'
  exact hkept

/-- `get_file_id` makes no file of another name. -/
theorem getFileId_entries {F F' : System.Folder} {disk disk' : System.Disk} {name name' : FileName}
    {fd fileId : FileId} (hne : name ≠ name') (hnone : F.entries name = none)
    (hget : F.getFileId disk name' (some fd) = .ok (fileId, F', disk')) :
    F'.entries name = none := by
  rw [System.Folder.getFileId] at hget
  split at hget
  · cases hget
    exact hnone
  · obtain ⟨⟨fileId', F₁, disk₁⟩, hopen, hget⟩ := Outcome.of_bind_ok hget
    cases hget
    show F₁.entries name = none
    unfold System.Folder.openFile at hopen
    split at hopen
    · cases hopen
    · cases hopen
    · cases hopen
      exact (Function.update_of_ne hne ..).trans hnone
    · cases hopen
      exact (Function.update_of_ne hne ..).trans hnone

/-- `delete_file` takes away the name, and makes no file. -/
theorem deleteFile_entries {F : System.Folder} {name name' : FileName} {fileId : FileId}
    (h : F.Sound) (hmem : (name', fileId) ∈ F.fileIds)
    (hnone : F.entries name = none ∨ name = name') :
    (F.deleteFile fileId).entries name = none := by
  rw [System.Folder.deleteFile, h.find_id hmem]
  dsimp only
  rw [if_neg (h.nonempty _ hmem)]
  show Function.update F.entries name' none name = none
  by_cases heq : name = name'
  · rw [heq, Function.update_self]
  · rw [Function.update_of_ne heq]
    exact hnone.resolve_right heq

/-- A name without a file has none afterwards, unless it is opened. -/
theorem entries_step {e : VolumeEvent} {name : FileName} (h : System.Kept a v)
    (hstep : Volume.machine.step v e v') (hnone : v.folder.entries name = none)
    (hne : ∀ fd, e ≠ .getFileId name fd) : v'.folder.entries name = none := by
  obtain ⟨hlegal, _, hexec⟩ := hstep
  cases e with
  | getFileId name' fd =>
      have hother : name ≠ name' := fun heq => hne fd (by rw [heq])
      obtain ⟨⟨fileId, F, disk⟩, hget, hexec⟩ := Outcome.of_bind_ok hexec
      cases hexec
      exact getFileId_entries hother hnone hget
  | request r =>
      obtain ⟨pool, hpool, hexec⟩ := Outcome.of_bind_ok hexec
      cases hexec
      exact hnone
  | deleteFile fileId =>
      obtain ⟨⟨name', hmem⟩, _⟩ := hlegal
      cases hexec
      exact deleteFile_entries h.sound hmem (.inl hnone)
  | restart data =>
      rw [Volume.exec] at hexec
      split at hexec
      · cases hexec
      · cases hexec
        simp [System.Folder.reopen, hnone]

/-- A table that `live` does not have has no file, and its pages are zero. -/
theorem Stored.zero (h : Stored live opened fileIds pages a v) {info : TableInfo}
    (hnew : ∀ j, live j → j.tableId ≠ info.tableId) :
    (∀ e ∈ a.names, e.1 ≠ fileName info) ∧ a.contents (fileName info) = fun _ => zeroPage := by
  have hnone := h.gone info fun j hj heq => hnew j hj (fileName_tableId heq)
  have hclosed : ∀ e ∈ a.names, e.1 ≠ fileName info := by
    intro e he heq
    obtain ⟨i, hi, hname, _⟩ := h.named e he
    exact hnew i (h.stands i hi) (fileName_tableId (hname.trans heq))
  refine ⟨hclosed, ?_⟩
  rw [← h.kept.atRest (fileName info) fun fileId hmem => hclosed _ hmem rfl]
  funext n
  rw [System.Folder.page, hnone]

/-- The same tables, with other cardinalities. -/
theorem Stored.congr {live' opened' : TableInfo → Prop}
    (h : Stored live opened fileIds pages a v)
    (hlive : ∀ j, live' j → ∃ i, live i ∧ SameTable j i)
    (hlive' : ∀ i, live i → ∃ j, live' j ∧ SameTable j i)
    (hopened : ∀ j, opened' j → ∃ i, opened i ∧ SameTable j i)
    (hopened' : ∀ i, opened i → ∃ j, opened' j ∧ SameTable j i)
    (hstands : ∀ i, opened' i → live' i) : Stored live' opened' fileIds pages a v where
  kept := h.kept
  distinct i j hi hj hid := by
    obtain ⟨i', hi', hsame⟩ := hlive i hi
    obtain ⟨j', hj', hsame'⟩ := hlive j hj
    have hboth := h.distinct i' j' hi' hj' (hsame.tableId.symm.trans (hid.trans hsame'.tableId))
    exact hsame.trans (hboth.trans ⟨hsame'.tableId.symm, hsame'.name.symm, hsame'.columns.symm⟩)
  stands := hstands
  found i hi := by
    obtain ⟨i', hi', hsame⟩ := hopened i hi
    rw [hsame.tableId, fileName_same hsame]
    exact h.found i' hi'
  named e he := by
    obtain ⟨i, hi, hname, hid⟩ := h.named e he
    obtain ⟨j, hj, hsame⟩ := hopened' i hi
    exact ⟨j, hj, (fileName_same hsame).trans hname, by rw [hsame.tableId]; exact hid⟩
  known tableId fileId hid := by
    obtain ⟨i, hi, htable⟩ := h.known tableId fileId hid
    obtain ⟨j, hj, hsame⟩ := hopened' i hi
    exact ⟨j, hj, hsame.tableId.trans htable⟩
  contents i hi := by
    obtain ⟨i', hi', hsame⟩ := hlive i hi
    rw [hsame.tableId, fileName_same hsame]
    exact h.contents i' hi'
  gone i hnew := by
    refine h.gone i fun j hj => ?_
    obtain ⟨j', hj', hsame⟩ := hlive' j hj
    rw [← fileName_same hsame]
    exact hnew j' hj'

/-- A table with an id of its own is one more table, whose pages are zero. -/
theorem Stored.extend (h : Stored live opened fileIds pages a v) {info : TableInfo}
    (hnew : ∀ j, live j → j.tableId ≠ info.tableId) :
    Stored (fun i => live i ∨ i = info) opened fileIds
      (Function.update pages info.tableId fun _ => zeroPage) a v where
  kept := h.kept
  distinct i j hi hj hid := by
    rcases hi with hi | rfl
    · rcases hj with hj | rfl
      · exact h.distinct i j hi hj hid
      · exact absurd hid (hnew i hi)
    · rcases hj with hj | rfl
      · exact absurd hid.symm (hnew j hj)
      · exact .refl _
  stands i hi := .inl (h.stands i hi)
  found := h.found
  named := h.named
  known := h.known
  contents i hi := by
    rcases hi with hi | rfl
    · rw [Function.update_of_ne (hnew i hi)]
      exact h.contents i hi
    · rw [Function.update_self]
      exact (h.zero hnew).2
  gone i hother := h.gone i fun j hj => hother j (.inl hj)

/-- The file of a table is opened. -/
theorem Stored.opens (h : Stored live opened fileIds pages a v) {info : TableInfo}
    {fileId : FileId} (hlive : live info) (hclosed : ∀ i, opened i → i.tableId ≠ info.tableId)
    (hopen : OpensFile v info fileId v') :
    ∃ a', Stored live (fun i => opened i ∨ i = info)
      (Function.update fileIds info.tableId (some fileId)) pages a' v' := by
  obtain ⟨⟨fd, hstep⟩, hfind⟩ := hopen
  have hkept := kept_step h.kept hstep
  have hnot : ¬ ∃ e ∈ a.names, e.1 = fileName info := by
    rintro ⟨e, he, heq⟩
    obtain ⟨i, hi, hname, _⟩ := h.named e he
    exact hclosed i hi (fileName_tableId (hname.trans heq))
  have hafter : a.apply (.getFileId (fileName info) fd) =
      { a with names := (fileName info, fd) :: a.names } := if_neg hnot
  rw [hafter] at hkept
  -- the descriptor that is returned is the one the kernel gave
  have hfd : fileId = fd := by
    have hmem : (fileName info, fd) ∈ v'.folder.fileIds := by
      rw [hkept.names]
      exact List.mem_cons_self
    rw [hkept.sound.find_eq hmem] at hfind
    exact (Option.some.inj hfind).symm
  subst hfd
  refine ⟨_, hkept, h.distinct, fun i hi => ?_, fun i hi => ?_, fun e he => ?_,
    fun tableId fileId' hid => ?_, h.contents, fun i hother => ?_⟩
  · rcases hi with hi | rfl
    · exact h.stands i hi
    · exact hlive
  · rcases hi with hi | rfl
    · obtain ⟨fileId', hid, hmem⟩ := h.found i hi
      exact ⟨fileId', by rw [Function.update_of_ne (hclosed i hi)]; exact hid,
        List.mem_cons_of_mem _ hmem⟩
    · exact ⟨fileId, Function.update_self .., List.mem_cons_self⟩
  · rcases List.mem_cons.mp he with rfl | he
    · exact ⟨info, .inr rfl, rfl, Function.update_self ..⟩
    · obtain ⟨i, hi, hname, hid⟩ := h.named e he
      exact ⟨i, .inl hi, hname, by rw [Function.update_of_ne (hclosed i hi)]; exact hid⟩
  · by_cases heq : tableId = info.tableId
    · exact ⟨info, .inr rfl, heq.symm⟩
    · rw [Function.update_of_ne heq] at hid
      obtain ⟨i, hi, htable⟩ := h.known tableId fileId' hid
      exact ⟨i, .inl hi, htable⟩
  · refine entries_step h.kept hstep (h.gone i hother) fun fd' heq => ?_
    injection heq with hname
    exact hother info hlive hname

/-- The file of a table is deleted. -/
theorem Stored.deletes (h : Stored live opened fileIds pages a v) {info : TableInfo}
    {fileId : FileId} (hopened : opened info) (hid : fileIds info.tableId = some fileId)
    (hstep : Volume.machine.step v (.deleteFile fileId) v') :
    ∃ a', Stored (fun i => live i ∧ i.tableId ≠ info.tableId)
      (fun i => opened i ∧ i.tableId ≠ info.tableId)
      (Function.update fileIds info.tableId none) pages a' v' := by
  have hkept := kept_step h.kept hstep
  obtain ⟨fileId', hid', hmem⟩ := h.found info hopened
  cases hid.symm.trans hid'
  have hmemFolder := h.kept.mem_names.mp hmem
  have hnodup : a.names.Nodup := by
    rw [← h.kept.names]
    exact .of_map _ h.kept.sound.names
  have hafter : a.apply (.deleteFile fileId) = ⟨a.names.erase (fileName info, fileId),
      Function.update a.contents (fileName info) fun _ => zeroPage⟩ := by
    rw [Archive.apply, h.kept.nameOf_eq hmemFolder]
  rw [hafter] at hkept
  have hother {i : TableInfo} (hne : i.tableId ≠ info.tableId) : fileName i ≠ fileName info :=
    fun heq => hne (fileName_tableId heq)
  refine ⟨_, hkept, fun i j hi hj => h.distinct i j hi.1 hj.1, fun i hi => ⟨h.stands i hi.1, hi.2⟩,
    fun i hi => ?_, fun e he => ?_, fun tableId fileId' hid' => ?_, fun i hi => ?_,
    fun i hgone => ?_⟩
  · obtain ⟨fileId', hid', hmem'⟩ := h.found i hi.1
    refine ⟨fileId', by rw [Function.update_of_ne hi.2]; exact hid', ?_⟩
    exact (List.mem_erase_of_ne fun heq => hother hi.2 (congrArg Prod.fst heq)).mpr hmem'
  · obtain ⟨hne, he⟩ := hnodup.mem_erase_iff.mp he
    obtain ⟨i, hi, hname, hid'⟩ := h.named e he
    have htable : i.tableId ≠ info.tableId := by
      intro heq
      rw [heq, hid] at hid'
      have hsame := h.distinct i info (h.stands i hi) (h.stands info hopened) heq
      exact hne (Prod.ext (hname.symm.trans (fileName_same hsame)) (Option.some.inj hid').symm)
    exact ⟨i, ⟨hi, htable⟩, hname, by rw [Function.update_of_ne htable]; exact hid'⟩
  · by_cases heq : tableId = info.tableId
    · rw [heq, Function.update_self] at hid'
      cases hid'
    · rw [Function.update_of_ne heq] at hid'
      obtain ⟨i, hi, htable⟩ := h.known tableId fileId' hid'
      exact ⟨i, ⟨hi, by rw [htable]; exact heq⟩, htable⟩
  · show Function.update a.contents _ _ _ = _
    rw [Function.update_of_ne (hother hi.2)]
    exact h.contents i hi.1
  · obtain ⟨_, _, hexec⟩ := hstep
    cases hexec
    refine deleteFile_entries h.kept.sound hmemFolder ?_
    by_cases heq : fileName i = fileName info
    · exact .inr heq
    · refine .inl (h.gone i fun j hj hname => ?_)
      by_cases htable : j.tableId = info.tableId
      · have hsame := h.distinct j info hj (h.stands info hopened) htable
        exact heq (hname.symm.trans (fileName_same hsame))
      · exact hgone j ⟨hj, htable⟩ hname

/-- The loop over the files of tables that are open. -/
theorem Stored.deleteFiles {fileIds' : TableId → Option FileId} {infos : List TableInfo}
    (h : Stored live opened fileIds pages a v) (hopened : ∀ i ∈ infos, opened i)
    (hnodup : (infos.map TableInfo.tableId).Nodup)
    (hloop : DeleteFiles v fileIds infos v' fileIds') :
    ∃ a', Stored (fun i => live i ∧ ∀ j ∈ infos, i.tableId ≠ j.tableId)
      (fun i => opened i ∧ ∀ j ∈ infos, i.tableId ≠ j.tableId) fileIds' pages a' v' := by
  induction hloop generalizing live opened a with
  | nil => simpa using ⟨a, h⟩
  | @cons v v₁ v' fileIds fileIds' info infos fileId hid hdelete hrest ih =>
      obtain ⟨hinfo, hopened⟩ := List.forall_mem_cons.mp hopened
      obtain ⟨hnot, hnodup⟩ := List.nodup_cons.mp hnodup
      obtain ⟨a₁, h₁⟩ := h.deletes hinfo hid hdelete
      have hrest' : ∀ i ∈ infos, opened i ∧ i.tableId ≠ info.tableId := fun i hi =>
        ⟨hopened i hi, fun heq => hnot (heq ▸ List.mem_map_of_mem hi)⟩
      obtain ⟨a', h'⟩ := ih h₁ hrest' hnodup
      refine ⟨a', ?_⟩
      simpa only [and_assoc, List.forall_mem_cons] using h'

/-- The loop over the files of tables that are there and not open. -/
theorem Stored.openFiles {fileIds' : TableId → Option FileId} {infos : List TableInfo}
    (h : Stored live opened fileIds pages a v) (hlive : ∀ i ∈ infos, live i)
    (hclosed : ∀ i ∈ infos, ∀ j, opened j → j.tableId ≠ i.tableId)
    (hnodup : (infos.map TableInfo.tableId).Nodup)
    (hloop : OpenFiles v fileIds infos v' fileIds') :
    ∃ a', Stored live (fun i => opened i ∨ i ∈ infos) fileIds' pages a' v' := by
  induction hloop generalizing opened a with
  | nil => simpa using ⟨a, h⟩
  | @cons v v₁ v' fileIds fileIds' info infos fileId hopen hrest ih =>
      obtain ⟨hinfo, hlive⟩ := List.forall_mem_cons.mp hlive
      obtain ⟨hfree, hclosed⟩ := List.forall_mem_cons.mp hclosed
      obtain ⟨hnot, hnodup⟩ := List.nodup_cons.mp hnodup
      obtain ⟨a₁, h₁⟩ := h.opens hinfo hfree hopen
      have hclosed' : ∀ i ∈ infos, ∀ j, opened j ∨ j = info → j.tableId ≠ i.tableId := by
        intro i hi j hj
        rcases hj with hj | rfl
        · exact hclosed i hi j hj
        · exact fun heq => hnot (heq ▸ List.mem_map_of_mem hi)
      obtain ⟨a', h'⟩ := ih h₁ hlive hclosed' hnodup
      refine ⟨a', ?_⟩
      simpa only [or_assoc, List.mem_cons] using h'

/-- A request writes one page of one table, or none. -/
theorem Stored.request (h : Stored live opened fileIds pages a v) {r : Request}
    (hstep : Volume.machine.step v (.request r) v') :
    ∃ a', Stored live opened fileIds (written fileIds pages r) a' v' := by
  have hkept := kept_step h.kept hstep
  have hgone : ∀ i, (∀ j, live j → fileName j ≠ fileName i) →
      v'.folder.entries (fileName i) = none := fun i hother =>
    entries_step h.kept hstep (h.gone i hother) fun fd heq => by cases heq
  cases r with
  | getPage pageId =>
      exact ⟨a, hkept, h.distinct, h.stands, h.found, h.named, h.known, h.contents, hgone⟩
  | unpin handle =>
      exact ⟨a, hkept, h.distinct, h.stands, h.found, h.named, h.known, h.contents, hgone⟩
  | flush => exact ⟨a, hkept, h.distinct, h.stands, h.found, h.named, h.known, h.contents, hgone⟩
  | write handle offset data =>
      have hhandle : handle ∈ v.pool.handles := hstep.1.1.1
      obtain ⟨name, hmem⟩ := h.kept.handles handle hhandle
      obtain ⟨info, hinfo, hname, hid⟩ := h.named _ (h.kept.mem_names.mpr hmem)
      have hafter := h.kept.nameOf_eq hmem
      simp only [Archive.apply, hafter] at hkept
      refine ⟨_, hkept, h.distinct, h.stands, h.found, h.named, h.known, fun i hi => ?_, hgone⟩
      by_cases heq : i.tableId = info.tableId
      · have hsame := h.distinct i info hi (h.stands info hinfo) heq
        have hcontents := h.contents info (h.stands info hinfo)
        rw [hname] at hcontents
        rw [fileName_same hsame, hname, hsame.tableId]
        simp only [written, if_pos hid, Function.update_self, hcontents]
      · have hne : fileName i ≠ name := fun hsame =>
          heq (fileName_tableId (hsame.trans hname.symm))
        have hnot : fileIds i.tableId ≠ some handle.pageId.fileId := by
          intro hother
          obtain ⟨j, hj, htable⟩ := h.known i.tableId _ hother
          obtain ⟨fileId, hidj, hmemj⟩ := h.found j hj
          rw [htable] at hidj
          cases hother.symm.trans hidj
          have hnames := h.kept.sound.name_unique (h.kept.mem_names.mp hmemj) hmem
          exact heq (htable.symm.trans (fileName_tableId (hnames.trans hname.symm)))
        simp only [written, if_neg hnot, Function.update_of_ne hne]
        exact h.contents i hi

/-- The process ends, and every file is closed. -/
theorem Stored.restart (h : Stored live opened fileIds pages a v) {data : List PageBytes}
    (hstep : Volume.machine.step v (.restart data) v') :
    ∃ a', Stored live (fun _ => False) (fun _ => none) pages a' v' := by
  refine ⟨_, kept_step h.kept hstep, h.distinct, fun _ hi => hi.elim, fun _ hi => hi.elim,
    fun e he => ?_, fun tableId fileId hid => ?_, h.contents, fun i hother => ?_⟩
  · cases he
  · cases hid
  · exact entries_step h.kept hstep (h.gone i hother) fun fd heq => by cases heq

end Files

end Iic3413Db.Server
