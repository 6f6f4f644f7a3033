/-
  Storage/HeapFile/FullVacuumTrim.lean --- the end of `full_vacuum`.

  The loop over the trailing pages begins one page past the last, which it creates
  and drops again; what stays of that is a page of zeros at the end of the file,
  unless the file is truncated.  The pages it drops are not written, so when no
  page is left the file shows whatever was on disk.
-/
import Iic3413Db.Storage.HeapFile.FullVacuumSweep

set_option autoImplicit false

namespace Iic3413Db.Storage

open Iic3413Db.Foundation Iic3413Db.RelationalModel HeapFilePage

namespace HeapStore

/-- Whatever frame it is in, page `n` opens as it is, and is empty or not. -/
def Judged (s : HeapStore) (n : Nat) (empty : Bool) : Prop :=
  ∀ p : Page, p.bytes = s.bytesOf n → construct p = .ok p ∧ isPageEmpty p = .ok empty

/-- `s'` is `s` after the walk down from page `n`: the pages from `kept` on have
lost their frames. -/
structure Dropped (s s' : HeapStore) (n kept : Nat) : Prop where
  coherent : s'.Coherent
  schema : s'.schema = s.schema
  fileId : s'.fileId = s.fileId
  victims : s'.victims = s.victims
  pageCount : s'.pageCount = s.pageCount
  below : ∀ m, m < kept → s'.bytesOf m = s.bytesOf m
  frames : ∀ m, kept ≤ m → s'.frames m = none
  beyond : ∀ m, n ≤ m → s'.disk m = s.disk m
  disk : (∀ i, s.victims i = none) → s'.disk = s.disk

section Trim

variable {s s' : HeapStore} {n : Nat}

theorem bytesOf_of_none (h : s.frames n = none) : s.bytesOf n = s.disk n := by
  rw [bytesOf, h]

/-- Pages without a frame keep what the disk has of them. -/
theorem Shows.disk_eq {bytes : PageBytes} (h : Shows s s' n bytes) {m : Nat} (hm : m ≠ n)
    (hnone : s.frames m = none) : s'.disk m = s.disk m := by
  have hbytes := h.bytes m
  rw [if_neg hm, bytesOf_of_none hnone, bytesOf_of_none (h.frames m hm hnone)] at hbytes
  exact hbytes

theorem deletePage_frames (s : HeapStore) (n m : Nat) :
    (s.deletePage n).frames m = if m = n then none else s.frames m := by
  by_cases hm : m = n
  · subst hm
    simp [deletePage]
  · simp [deletePage, hm]

theorem Coherent.deletePage (hc : s.Coherent) (n : Nat) : (s.deletePage n).Coherent := by
  refine ⟨fun m p hp => ?_, hc.beyond⟩
  rw [deletePage_frames] at hp
  split at hp
  · cases hp
  · exact hc.frame m p hp

theorem deletePage_bytesOf (s : HeapStore) {n m : Nat} (hm : m ≠ n) :
    (s.deletePage n).bytesOf m = s.bytesOf m := by
  rw [bytesOf, deletePage_frames, if_neg hm]
  rfl

/-- The page is not empty, and stays. -/
theorem Shows.dropped_stop (h : Shows s s' n (s.bytesOf n)) (hn : n < s.pageCount)
    (hframes : ∀ m, n + 1 ≤ m → s.frames m = none) : Dropped s s' (n + 1) (n + 1) where
  coherent := h.coherent
  schema := h.schema
  fileId := h.fileId
  victims := h.victims
  pageCount := by
    rw [h.count]
    omega
  below m _ := by
    rw [h.bytes]
    split
    · rename_i hm
      rw [hm]
    · rfl
  frames m hm := h.frames m (by omega) (hframes m hm)
  beyond m hm := h.disk_eq (by omega) (hframes m hm)
  disk := h.disk

/-- The page is empty, and its frame is dropped. -/
theorem Shows.dropped_go {bytes : PageBytes} (h : Shows s s' n bytes) (hn : n < s.pageCount)
    (hframes : ∀ m, n + 1 ≤ m → s.frames m = none) : Dropped s (s'.deletePage n) (n + 1) n where
  coherent := h.coherent.deletePage n
  schema := h.schema
  fileId := h.fileId
  victims := h.victims
  pageCount := by
    show s'.pageCount = s.pageCount
    rw [h.count]
    omega
  below m hm := by
    have hmn : m ≠ n := by omega
    rw [deletePage_bytesOf s' hmn, h.bytes, if_neg hmn]
  frames m hm := by
    rw [deletePage_frames]
    split
    · rfl
    · rename_i hmn
      exact h.frames m hmn (hframes m (by omega))
  beyond m hm := h.disk_eq (by omega) (hframes m hm)
  disk := h.disk

theorem Dropped.trans {s'' : HeapStore} {kept : Nat} (h : Dropped s s' (n + 1) n)
    (h' : Dropped s' s'' n kept) (hkept : kept ≤ n) : Dropped s s'' (n + 1) kept where
  coherent := h'.coherent
  schema := h'.schema.trans h.schema
  fileId := h'.fileId.trans h.fileId
  victims := h'.victims.trans h.victims
  pageCount := h'.pageCount.trans h.pageCount
  below m hm := (h'.below m hm).trans (h.below m (by omega))
  frames := h'.frames
  beyond m hm := (h'.beyond m (by omega)).trans (h.beyond m hm)
  disk hnone := (h'.disk fun i => h.victims ▸ hnone i).trans (h.disk hnone)

/-- The loop from page `n - 1` down stops at the last page that is occupied. -/
theorem trim_spec (total : Nat) (occupied : Nat → Prop) : ∀ (n : Nat) (s : HeapStore),
    s.Coherent → 4096 * s.pageCount < 2 ^ 31 → n ≤ s.pageCount →
    (∀ m, n ≤ m → s.frames m = none) →
    (∀ m, m < n → (occupied m → Judged s m false) ∧ (¬ occupied m → Judged s m true)) →
    (∃ k, k < n ∧ occupied k ∧ (∀ m, k < m → m < n → ¬ occupied m) ∧ ∃ s', Dropped s s' n (k + 1) ∧
      trim total n s = .ok (if total ≠ k + 1 then s'.truncateFile (k + 1) else s')) ∨
    (∀ m, m < n → ¬ occupied m) ∧ ∃ s', Dropped s s' n 0 ∧ trim total n s = .ok s' := by
  intro n
  induction n with
  | zero =>
      intro s hc _ _ hframes _
      refine .inr ⟨fun m hm => absurd hm (Nat.not_lt_zero m), s, ?_, rfl⟩
      exact ⟨hc, rfl, rfl, rfl, rfl, fun _ _ => rfl, hframes, fun _ _ => rfl, fun _ => rfl⟩
  | succ n ih =>
      intro s hc hbound hn hframes hjudged
      have hsame : ∀ p : Page, p.bytes = s.bytesOf n → construct p = .ok p := by
        intro p hp
        by_cases hocc : occupied n
        · exact ((hjudged n (Nat.lt_succ_self n)).1 hocc p hp).1
        · exact ((hjudged n (Nat.lt_succ_self n)).2 hocc p hp).1
      obtain ⟨p, s₁, hopen, _, hbytes, hshows⟩ := hc.openPage_same hn hbound hsame
      by_cases hocc : occupied n
      · have hempty := ((hjudged n (Nat.lt_succ_self n)).1 hocc p hbytes).2
        refine .inl ⟨n, Nat.lt_succ_self n, hocc, fun m hm hm' => absurd hm' (by omega), s₁,
          hshows.dropped_stop hn hframes, ?_⟩
        simp only [trim, hopen, Outcome.ok_bind, hempty, Bool.false_eq_true, if_false]
        split
        · rfl
        · rfl
      · have hempty := ((hjudged n (Nat.lt_succ_self n)).2 hocc p hbytes).2
        have hdropped := hshows.dropped_go hn hframes
        have hstep : trim total (n + 1) s = trim total n (s₁.deletePage n) := by
          simp only [trim, hopen, Outcome.ok_bind, hempty, if_true]
        have hjudged' : ∀ m, m < n → (occupied m → Judged (s₁.deletePage n) m false) ∧
            (¬ occupied m → Judged (s₁.deletePage n) m true) := by
          intro m hm
          have hm' := hjudged m (by omega)
          unfold Judged at hm' ⊢
          rw [hdropped.below m hm]
          exact hm'
        rcases ih (s₁.deletePage n) hdropped.coherent (by rw [hdropped.pageCount]; exact hbound)
          (by rw [hdropped.pageCount]; omega) hdropped.frames hjudged' with
          ⟨k, hk, hock, hlast, s', hdropped', htrim⟩ | ⟨hnone, s', hdropped', htrim⟩
        · refine .inl ⟨k, by omega, hock, fun m hm hm' => ?_, s', hdropped.trans hdropped' hk,
            hstep.trans htrim⟩
          by_cases hmn : m = n
          · rw [hmn]
            exact hocc
          · exact hlast m hm (by omega)
        · refine .inr ⟨fun m hm => ?_, s', hdropped.trans hdropped' (Nat.zero_le n),
            hstep.trans htrim⟩
          by_cases hmn : m = n
          · rw [hmn]
            exact hocc
          · exact hnone m (by omega)

/-- The page after the last one is created, found empty and dropped. -/
theorem Coherent.trim_extra (hc : s.Coherent) (hroom : 4096 * (s.pageCount + 1) < 2 ^ 31)
    (total : Nat) : ∃ s₁, trim total (s.pageCount + 1) s = trim total s.pageCount s₁ ∧
      s₁.Coherent ∧ s₁.schema = s.schema ∧ s₁.fileId = s.fileId ∧ s₁.victims = s.victims ∧
      s₁.pageCount = s.pageCount + 1 ∧ s₁.bytesOf = s.bytesOf ∧
      (∀ m, s.pageCount ≤ m → s₁.frames m = none ∧ s₁.disk m = fun _ => 0) ∧
      ((∀ i, s.victims i = none) → s₁.disk = s.disk) := by
  have hzero := hc.bytesOf_beyond (le_refl s.pageCount)
  obtain ⟨p, s₁, hopen, _, hlaid, hshows⟩ := hc.openPage_blank le_rfl hroom hzero
  have hframes : ∀ m, s.pageCount ≤ m → s.frames m = none := by
    intro m hm
    cases hframe : s.frames m with
    | none => rfl
    | some q => exact absurd (hc.frame m q hframe).2.1 (Nat.not_lt.mpr hm)
  have hdropped : ∀ m, s.pageCount ≤ m → (s₁.deletePage s.pageCount).frames m = none ∧
      s₁.disk m = fun _ => 0 := by
    intro m hm
    refine ⟨?_, hshows.beyond m hm⟩
    rw [deletePage_frames]
    split
    · rfl
    · rename_i hmn
      exact hshows.frames m hmn (hframes m hm)
  refine ⟨s₁.deletePage s.pageCount, ?_, hshows.coherent.deletePage _, hshows.schema, hshows.fileId,
    hshows.victims, ?_, ?_, hdropped, hshows.disk⟩
  · simp only [trim, hopen, Outcome.ok_bind, hlaid.isPageEmpty_eq, List.all_nil, if_true]
  · show s₁.pageCount = s.pageCount + 1
    rw [hshows.count]
    omega
  · funext m
    by_cases hm : m = s.pageCount
    · rw [hm, hzero, bytesOf_of_none (hdropped _ le_rfl).1]
      exact (hdropped _ le_rfl).2
    · rw [deletePage_bytesOf s₁ hm, hshows.bytes, if_neg hm]

/-- What `full_vacuum` ends with: the pages below `kept`, and zeros. -/
structure Ends (s s' : HeapStore) (count kept : Nat) : Prop where
  coherent : s'.Coherent
  schema : s'.schema = s.schema
  fileId : s'.fileId = s.fileId
  pageCount : s'.pageCount = count
  lastInsertPage : s'.lastInsertPage = 0
  bytes : ∀ m, s'.bytesOf m = if m < kept then s.bytesOf m else fun _ => 0

/-- What it ends with when every page is empty: what was on disk. -/
structure Loses (s s' : HeapStore) : Prop where
  coherent : s'.Coherent
  schema : s'.schema = s.schema
  fileId : s'.fileId = s.fileId
  pageCount : s'.pageCount = s.pageCount + 1
  lastInsertPage : s'.lastInsertPage = 0
  frames : ∀ m, s'.frames m = none
  disk : (∀ i, s.victims i = none) → s'.disk = s.disk

/-- The file cut off behind the pages that are left. -/
theorem Dropped.ends_truncated {kept : Nat} (h : Dropped s s' n kept) :
    Ends s { s'.truncateFile kept with lastInsertPage := 0 } kept kept := by
  have hbytes : ∀ m, (HeapStore.bytesOf { s'.truncateFile kept with lastInsertPage := 0 } m) =
      if m < kept then s.bytesOf m else fun _ => 0 := by
    intro m
    rcases Nat.lt_or_ge m kept with hm | hm
    · rw [if_pos hm, ← h.below m hm]
      simp only [HeapStore.bytesOf, truncateFile, if_pos hm]
    · rw [if_neg (Nat.not_lt.mpr hm)]
      simp only [HeapStore.bytesOf, truncateFile, h.frames m hm, if_neg (Nat.not_lt.mpr hm)]
  refine ⟨⟨fun m p hp => ?_, fun m hm => if_neg (Nat.not_lt.mpr hm)⟩, h.schema, h.fileId, rfl, rfl,
    hbytes⟩
  have hp : s'.frames m = some p := hp
  have hm : m < kept := by
    by_contra hge
    rw [h.frames m (Nat.not_lt.mp hge)] at hp
    cases hp
  obtain ⟨hid, _, hclean⟩ := h.coherent.frame m p hp
  refine ⟨hid, hm, fun hdirty => (hclean hdirty).trans ?_⟩
  exact (if_pos hm).symm

/-- The file left as long as the walk made it. -/
theorem Dropped.ends_whole {kept : Nat} (h : Dropped s s' n kept)
    (hzero : ∀ m, kept ≤ m → s'.disk m = fun _ => 0) :
    Ends s { s' with lastInsertPage := 0 } s.pageCount kept := by
  refine ⟨⟨h.coherent.frame, h.coherent.beyond⟩, h.schema, h.fileId, h.pageCount, rfl, fun m => ?_⟩
  have hbytes : HeapStore.bytesOf { s' with lastInsertPage := 0 } m = s'.bytesOf m := rfl
  rw [hbytes]
  split
  · rename_i hm
    exact h.below m hm
  · rename_i hm
    rw [bytesOf_of_none (h.frames m (Nat.not_lt.mp hm)), hzero m (Nat.not_lt.mp hm)]

/-- The whole loop: pages behind the last occupied one go, but the one past the
end stays if that is the last page. -/
theorem Coherent.trim_all (hc : s.Coherent) (hroom : 4096 * (s.pageCount + 1) < 2 ^ 31)
    {total : Nat} (htotal : total = s.pageCount ∨ total = 0) (occupied : Nat → Prop)
    (hjudged : ∀ m, m < s.pageCount →
      (occupied m → Judged s m false) ∧ (¬ occupied m → Judged s m true)) :
    (∃ k, k < s.pageCount ∧ occupied k ∧ (∀ m, k < m → m < s.pageCount → ¬ occupied m) ∧
      ∃ s', trim total (s.pageCount + 1) s = .ok s' ∧
        Ends s { s' with lastInsertPage := 0 }
          (if total ≠ k + 1 then k + 1 else s.pageCount + 1) (k + 1)) ∨
    (∀ m, m < s.pageCount → ¬ occupied m) ∧
      ∃ s', trim total (s.pageCount + 1) s = .ok s' ∧ Loses s { s' with lastInsertPage := 0 } := by
  obtain ⟨s₁, htrim, hc₁, hschema, hfile, hvictims, hcount, hbytes, hzero, hdisk⟩ :=
    hc.trim_extra hroom total
  have hjudged₁ : ∀ m, m < s.pageCount →
      (occupied m → Judged s₁ m false) ∧ (¬ occupied m → Judged s₁ m true) := by
    intro m hm
    unfold Judged
    rw [hbytes]
    exact hjudged m hm
  rcases trim_spec total occupied s.pageCount s₁ hc₁ (by rw [hcount]; exact hroom)
    (by rw [hcount]; omega) (fun m hm => (hzero m hm).1) hjudged₁ with
    ⟨k, hk, hocc, hlast, s', hdropped, hrun⟩ | ⟨hnone, s', hdropped, hrun⟩
  · refine .inl ⟨k, hk, hocc, hlast, _, htrim.trans hrun, ?_⟩
    by_cases htrunc : total ≠ k + 1
    · obtain ⟨hc', hschema', hfile', hcount', hpage', hbytes'⟩ := hdropped.ends_truncated
      rw [if_pos htrunc, if_pos htrunc]
      exact ⟨hc', hschema'.trans hschema, hfile'.trans hfile, hcount', hpage', by
        rw [← hbytes]
        exact hbytes'⟩
    · have hend : s.pageCount = k + 1 := by omega
      have hdisk' : ∀ m, k + 1 ≤ m → s'.disk m = fun _ => 0 := by
        intro m hm
        rw [hdropped.beyond m (by omega)]
        exact (hzero m (by omega)).2
      obtain ⟨hc', hschema', hfile', hcount', hpage', hbytes'⟩ := hdropped.ends_whole hdisk'
      rw [if_neg htrunc, if_neg htrunc]
      exact ⟨hc', hschema'.trans hschema, hfile'.trans hfile, hcount'.trans hcount, hpage', by
        rw [← hbytes]
        exact hbytes'⟩
  · refine .inr ⟨hnone, s', htrim.trans hrun, ?_⟩
    exact ⟨⟨hdropped.coherent.frame, hdropped.coherent.beyond⟩, hdropped.schema.trans hschema,
      hdropped.fileId.trans hfile, hdropped.pageCount.trans hcount, rfl,
      fun m => hdropped.frames m (Nat.zero_le m),
      fun hnone => (hdropped.disk fun i => hvictims ▸ hnone i).trans (hdisk hnone)⟩

end Trim

end HeapStore

end Iic3413Db.Storage
