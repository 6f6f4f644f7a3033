/-
  System/BufferRuns.lean --- runs of the buffer pool.

  A run starts on a pool just constructed and makes legal requests.  The store
  reached by the run's writes is what every handle shows at its end.  The one
  thing a run must not do is leave the range of the `int` arithmetic, and
  `lastPage` is where a page whose own offset is still in range does so.
-/
import Iic3413Db.System.BufferCoherence

set_option autoImplicit false

namespace Iic3413Db.System.Pool

open Iic3413Db.Foundation Iic3413Db.Storage

/-- The pool under legal requests in the range of the arithmetic. -/
def machine : Machine Pool Request where
  init := Fresh
  step s r s' := s.Legal r ∧ s.NoWrap r ∧ s.exec r = .ok s'

/-- A new pool refines the contents of the disk. -/
theorem coherent_fresh {s : Pool} (h : s.Fresh) : Coherent s.disk.pageOf s := by
  obtain ⟨⟨data, hne, hmanager⟩, hpaged, hhandles⟩ := h
  have hframes : ∀ (i : Nat) (f : Page), s.manager.frames[i]? = some f →
      f.pageId.fileId = FileId.unassigned ∧ f.dirty = false ∧ f.pins = 0 := by
    intro i f hf
    rw [hmanager] at hf
    obtain ⟨bytes, _, rfl⟩ := List.mem_map.mp (List.mem_of_getElem? hf)
    exact ⟨rfl, rfl, rfl⟩
  constructor
  case clock =>
    rw [hmanager]
    simpa [BufferManager.create] using List.length_pos_iff.mpr hne
  case paged => exact hpaged
  case mapped =>
    intro pageId i
    rw [hmanager]
    constructor
    · intro h
      cases h
    · rintro ⟨f, hf, rfl, hassigned⟩
      rw [← hmanager] at hf
      exact absurd (hframes i f hf).1 hassigned
  case frame =>
    intro i f hf
    obtain ⟨hun, hclean, _⟩ := hframes i f hf
    exact ⟨fun _ => hclean, fun h => absurd hun h, fun h => absurd hun h, fun h => absurd hun h⟩
  case unmapped => exact fun _ _ _ => rfl
  case handle =>
    intro h hh
    rw [hhandles] at hh
    cases hh
  case pins =>
    intro i f hf
    rw [hhandles, (hframes i f hf).2.2]
    rfl

/-- Every run from a fresh pool ends coherent with the store its writes made. -/
theorem run_coherent {s₀ s : Pool} {rs : List Request} (h₀ : s₀.Fresh)
    (hrun : machine.Run s₀ rs s) : Coherent (rs.foldl Store.apply s₀.disk.pageOf) s := by
  induction hrun with
  | nil => exact coherent_fresh h₀
  | snoc _ hstep ih =>
      obtain ⟨hlegal, hwrap, hexec⟩ := hstep
      obtain ⟨s', hexec', hc⟩ := exec_coherent ih hlegal hwrap
      rw [hexec] at hexec'
      cases hexec'
      rw [List.foldl_append]
      exact hc

/-- What a client relies on: every handle shows the last bytes written to its
page, on a pinned frame; the map is exactly the assigned frames, one a page. -/
structure Serves (store : Store) (s : Pool) : Prop where
  view : ∀ h ∈ s.handles, ∃ f, s.manager.frames[h.frame]? = some f ∧ f.pageId = h.pageId ∧
    0 < f.pins ∧ f.bytes = store h.pageId
  mapped : ∀ (pageId : PageId) (i : Nat), s.manager.pageMap pageId = some i ↔
    ∃ f, s.manager.frames[i]? = some f ∧ f.pageId = pageId ∧ pageId.fileId ≠ FileId.unassigned
  unique : ∀ (i j : Nat) (f g : Page), s.manager.frames[i]? = some f →
    s.manager.frames[j]? = some g → f.pageId.fileId ≠ FileId.unassigned →
    g.pageId = f.pageId → i = j

theorem Coherent.serves {store : Store} {s : Pool} (hc : Coherent store s) : Serves store s where
  view h hh := by
    obtain ⟨f, hf, hpage, _, hpos, hbytes⟩ := hc.frame_of_handle hh
    exact ⟨f, hf, hpage, hpos, hbytes⟩
  mapped := hc.mapped
  unique _ _ _ _ hf hg hassigned hpage := hc.frame_unique hf hg hassigned hpage

/-- In every run the pool serves the store its writes made, and every further
legal request in range succeeds: no assertion fails, no call throws. -/
theorem run_serves {s₀ s : Pool} {rs : List Request} (h₀ : s₀.Fresh)
    (hrun : machine.Run s₀ rs s) :
    Serves (rs.foldl Store.apply s₀.disk.pageOf) s ∧
      ∀ r, s.Legal r → s.NoWrap r → ∃ s', s.exec r = .ok s' := by
  have hc := run_coherent h₀ hrun
  refine ⟨hc.serves, ?_⟩
  intro r hlegal hwrap
  obtain ⟨s', hexec, _⟩ := exec_coherent hc hlegal hwrap
  exact ⟨s', hexec⟩

/-! ## A pool of one frame -/

/-- A file just created. -/
def emptyFile : OpenFile := .empty

/-- A pool of one frame over files that hold nothing. -/
def onePool : Pool := ⟨BufferManager.create [zeroPage], fun _ => emptyFile, []⟩

theorem onePool_fresh : onePool.Fresh :=
  ⟨⟨[zeroPage], by simp, rfl⟩, fun _ => dvd_zero _, rfl⟩

/-- The last page whose byte offset fits in 31 bits. -/
def lastPage : PageId := ⟨⟨3⟩, 524287⟩

/-- `run_serves` over a run that reads a page in. -/
theorem run_serves_first_page : ∃ s, machine.Run onePool [.getPage ⟨⟨3⟩, 0⟩] s ∧
    Serves onePool.disk.pageOf s := by
  have hlegal : onePool.Legal (.getPage ⟨⟨3⟩, 0⟩) :=
    ⟨by decide, ⟨by decide, by decide⟩, fun _ => ⟨_, List.mem_singleton.mpr rfl, rfl⟩⟩
  have hwrap : onePool.NoWrap (.getPage ⟨⟨3⟩, 0⟩) := ⟨.inl (by decide), by decide⟩
  obtain ⟨s, hexec, _⟩ := exec_coherent (coherent_fresh onePool_fresh) hlegal hwrap
  have hrun : machine.Run onePool [.getPage ⟨⟨3⟩, 0⟩] s := Machine.Run.single ⟨hlegal, hwrap, hexec⟩
  exact ⟨s, hrun, (run_serves onePool_fresh hrun).1⟩

/-- The first touch of the last page is legal and throws: `ftruncate` is given
`4096 * 524288` as an `int`, which is negative. -/
theorem getPage_lastPage_throws : onePool.Fresh ∧ onePool.Legal (.getPage lastPage) ∧
    onePool.exec (.getPage lastPage) =
      .error (.runtimeError "Could not write into file") :=
  ⟨onePool_fresh,
    ⟨by decide, ⟨by decide, by decide⟩, fun _ => ⟨_, List.mem_singleton.mpr rfl, rfl⟩⟩, rfl⟩

end Iic3413Db.System.Pool
