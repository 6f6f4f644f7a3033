/-
  Mvcc/Updates.lean --- no update is lost under READ_COMMITTED.

  The history of every chain is the reports of its updates, in order: each version
  after the first is what one reported statement makes of the version before it.
-/
import Iic3413Db.Mvcc.Scan

set_option autoImplicit false

namespace Iic3413Db.Mvcc

open Iic3413Db.Foundation Iic3413Db.RelationalModel Iic3413Db.Storage Iic3413Db.System
  Iic3413Db.Query

/-- In every state transactions without aborts lead to, every tuple has a chain,
and each version of a chain after the first is the result of the SET list of its
writer's statement on the version before it, which satisfied the WHERE; the
versions after the first are, one for one and in order, the rows of the tuple an
UPDATE reported. -/
theorem no_lost_update {t : TableSchema} {db : Database}
    (hreach : (database t).Reachable db) :
    (∀ (first : RID) (header : RecordHeader) (values : List Value),
      db.slot first = some (header, values) → header.first = first →
      ∃ vs, Versions db.slot first vs) ∧
    ∀ (first : RID) (vs : List Version), Versions db.slot first vs →
      Derived t first (db.reportsOn first) vs ∧
        vs.length = (db.reportsOn first).length + 1 := by
  obtain ⟨g, h⟩ := reachable_invariant hreach
  refine ⟨fun first header values hslot hfirst => ?_, fun first vs hvs => ?_⟩
  · exact ⟨g first, h.chains first (h.tuple_of_first hslot hfirst)⟩
  · have hderived := h.derived first
    rw [h.chain_eq hvs] at hderived
    refine ⟨hderived, ?_⟩
    obtain ⟨v, us, rfl, _⟩ := hvs.exists_cons
    have hlen := hderived.length_eq
    rw [List.tail_cons, List.length_zip, List.length_cons] at hlen
    rw [hlen, List.length_cons]
    omega

/-! ## A row that is updated once -/

/-- `UPDATE t SET a = 6`. -/
def setToSix : UpdateStatement :=
  ⟨fun _ => .ok true, [⟨0, fun _ => .ok (.int 6), fun _ v h => by
    obtain rfl := Except.ok.inj h
    simp [Value.Fits]⟩]⟩

theorem setToSix_updatedRecord (first : RID) :
    setToSix.updatedRecord oneIntColumn [.int 5] first = .ok ⟨[.int 6, .rid first]⟩ := by
  rfl

/-- Transaction 1 inserts a row and updates it: a state some run reaches. -/
theorem updatedRow_reachable (fileId : FileId) : ∃ db first header values,
    (database oneIntColumn).Reachable db ∧ db.reports = [⟨1, first, setToSix⟩] ∧
      db.slot first = some (header, values) ∧ header.first = first := by
  obtain ⟨db, first, h, hruns, _, hs, hfree, hreports, hroom, hvs⟩ := oneRow_reachable fileId
  have hslot : db.slot first = some (⟨1, 0, first, first⟩, [.int 5]) := hvs.linked.1
  obtain ⟨tm₁, htm₁⟩ := hruns.addToWriteSet first
  have hruns₁ := (TransactionManager.addToWriteSet_ok htm₁).runs 1 _ hruns
  let db₁ : Database := ({ db with transactions := tm₁ } : Database).setSession 1 .idle
  have h₁ : (database oneIntColumn).Reachable db₁ := h.step (Step.addToWriteSet hs htm₁)
  -- the row, its lock, and the row once more
  let db₂ : Database := db₁.setSession 1 (.scanned setToSix first)
  have step₂ : Step oneIntColumn db₁ (1, .scan setToSix first) db₂ :=
    .scan (setSession_self ..) hruns₁ hslot rfl
  have h₂ := h₁.step step₂
  obtain ⟨tm₃, htm₃⟩ := LockManager.tryAcquireLock_free hfree hruns₁
  have hruns₃ := (LockManager.tryAcquireLock_some htm₃).1.runs 1 _ hruns₁
  let db₃ : Database := ({ db₂ with
    lockTable := Function.update db.lockTable first (some 1), transactions := tm₃ } :
      Database).setSession 1 (.locked setToSix first)
  have step₃ : Step oneIntColumn db₂ (1, .acquire) db₃ := .acquire (setSession_self ..) htm₃
  have h₃ := h₂.step step₃
  obtain ⟨g, hinv⟩ := reachable_invariant h₃
  have hg : g first = [⟨first, 1, [.int 5]⟩] := hinv.chain_eq hvs
  have hvalid : db.heapFile.Valid := hinv.valid
  have hheader := hvalid.getRecordHeader_eq hslot
  obtain ⟨rid, hread, hrid⟩ := hinv.read_eq hvalid rfl (by rw [hg]; simp) hruns₃
  have hexpected : expected db₃.state 1 (g first) = some ⟨first, 1, [.int 5]⟩ := by
    rw [hg]
    rfl
  have hrid : rid = first := hrid _ hexpected
  have hread := hread _ (le_refl _)
  rw [hexpected, hrid, Option.isSome_some] at hread
  have hlocked : db₃.sessions 1 = .locked setToSix first := setSession_self ..
  have step₄ : Step oneIntColumn db₃ (1, .reread)
      (db₃.setSession 1 (.reread setToSix first first ⟨[.int 5]⟩)) :=
    .reread hlocked hheader hread (hvalid.getRecord_eq hslot)
  have h₄ := h₃.step step₄
  let db₅ : Database := (db₃.setSession 1 (.reread setToSix first first ⟨[.int 5]⟩)).setSession 1
    (.updating setToSix first ⟨[.int 6, .rid first]⟩)
  have step₅ : Step oneIntColumn _ (1, .check) db₅ :=
    .check (setSession_self ..) rfl (setToSix_updatedRecord first)
  have h₅ := h₄.step step₅
  -- the lock again, the last version, the new one behind it
  have hupdating : db₅.sessions 1 = .updating setToSix first ⟨[.int 6, .rid first]⟩ :=
    setSession_self ..
  have hheld : db₅.lockTable first = some 1 := Function.update_self ..
  let db₆ : Database := db₅.setSession 1 (.relocked setToSix first first ⟨[.int 6, .rid first]⟩)
  have step₆ : Step oneIntColumn db₅ (1, .relock) db₆ :=
    .relock hupdating hruns₃.isolationLevel hheader (LockManager.tryAcquireLock_held hheld)
  have h₆ := h₅.step step₆
  have hlast := hinv.getLastVersion_eq (v := ⟨first, 1, [.int 5]⟩) (by rw [hg]; rfl) _ (le_refl _)
  let db₇ : Database := db₆.setSession 1
    (.appending setToSix first first first ⟨[.int 6, .rid first]⟩)
  have step₇ : Step oneIntColumn db₆ (1, .findLast) db₇ :=
    .findLast (setSession_self ..) hlast hheader (ne_deleted hslot)
  have h₇ := h₆.step step₇
  obtain ⟨_, hinv₇⟩ := reachable_invariant h₇
  have hfits : InsertFits db.heapFile.schema ⟨[.int 6, .rid first]⟩ 1 (some first) :=
    hinv₇.appending_fits (setSession_self ..)
  obtain ⟨new, hf, hins, _⟩ := hroom.insertPass hfits (by simp [HeapFilePage.valueSize])
  let db₈ : Database := ({ db₇ with heapFile := hf } : Database).setSession 1
    (.linking setToSix first first first new ⟨[.int 6, .rid first]⟩)
  have step₈ : Step oneIntColumn db₇ (1, .tryAppend) db₈ := .append (setSession_self ..) hins
  have h₈ := h₇.step step₈
  obtain ⟨hvalid₈, _, ⟨hres, _⟩ | ⟨rid, hres, hnone, hslot₈⟩⟩ := hvalid.insertPass_ok hfits hins
  · cases hres
  obtain rfl := Option.some.inj hres
  have hne : first ≠ new := by
    rintro rfl
    rw [show db.slot first = _ from hnone] at hslot
    cases hslot
  have hnew : hf.slot new = some (⟨1, 0, new, first⟩, [.int 6]) := by
    rw [hslot₈, Function.update_self]
    rfl
  have hold : hf.slot first = some (⟨1, 0, first, first⟩, [.int 5]) := by
    rw [hslot₈, Function.update_of_ne hne]
    exact hslot
  have hlt : (1 : TxID) < 2 ^ 64 := by norm_num
  obtain ⟨hf', hlink, _, _, hslot₉⟩ :=
    hvalid₈.updateRecordHeader_eq hold hlt (hvalid₈.rid_fits hnew)
  let db₉ : Database := ({ db₈ with heapFile := hf' } : Database).report 1 first setToSix
  have step₉ : Step oneIntColumn db₈ (1, .link) db₉ := .link (setSession_self ..) hlink
  refine ⟨db₉, first, ⟨1, 1, new, first⟩, [.int 5], h₈.step step₉, ?_, ?_, rfl⟩
  · show db.reports ++ _ = _
    rw [hreports]
    rfl
  · show hf'.slot first = _
    rw [hslot₉, Function.update_self]

/-- Its chain has two versions, and the second is the result of the update. -/
theorem no_lost_update_updatedRow : ∃ db first v w,
    (database oneIntColumn).Reachable db ∧ Versions db.slot first [v, w] ∧
      Produces oneIntColumn first ⟨1, first, setToSix⟩ v w := by
  obtain ⟨db, first, header, values, hreach, hreports, hslot, hfirst⟩ := updatedRow_reachable ⟨3⟩
  obtain ⟨hchains, hderived⟩ := no_lost_update hreach
  obtain ⟨vs, hvs⟩ := hchains first header values hslot hfirst
  obtain ⟨hderived, hlen⟩ := hderived first vs hvs
  have hone : db.reportsOn first = [⟨1, first, setToSix⟩] := by
    simp [Database.reportsOn, hreports]
  rw [hone] at hderived hlen
  obtain ⟨v, w, rfl⟩ := List.length_eq_two.mp hlen
  cases hderived with
  | cons hproduces _ => exact ⟨db, first, v, w, hreach, hvs, hproduces⟩

end Iic3413Db.Mvcc
