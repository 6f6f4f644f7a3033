/-
  Storage/HeapFile/Vacuum.lean --- `HeapFilePage::vacuum`.

  The loop copies the live tuples to the end of a fresh buffer, each right below
  the one before, and rebuilds the directory in front.  `compact` is where each
  tuple ends up.  `Vacuumed sp k s` is what holds when `k` slots are done; the
  copies never run into the directory because the live tuples together are no
  longer than the room above it, which is `SlottedPage.floor_add_total_le`.
-/
import Iic3413Db.Storage.HeapFile.PageOperations

set_option autoImplicit false

namespace Iic3413Db.Storage

open Iic3413Db.Foundation Iic3413Db.RelationalModel

/-! ## Slots in order -/

/-- The bytes a slot's tuple takes. -/
def slotSize : Option Tuple → Nat
  | some t => t.size
  | none => 0

/-- The bytes of all live tuples. -/
def totalSize (slots : List (Option Tuple)) : Nat := (slots.map slotSize).sum

/-- The index of the last live slot, `0` if there is none. -/
def lastLive {α : Type} (slots : List (Option α)) : Nat :=
  slots.zipIdx.foldl (fun last entry => if entry.1.isSome then entry.2 else last) 0

theorem totalSize_take_succ {slots : List (Option Tuple)} {k : Nat} {slot : Option Tuple}
    (hk : slots[k]? = some slot) :
    totalSize (slots.take (k + 1)) = totalSize (slots.take k) + slotSize slot := by
  rw [List.take_add_one, hk]
  simp [totalSize]

theorem totalSize_take_mono (slots : List (Option Tuple)) {i j : Nat} (h : i ≤ j) :
    totalSize (slots.take i) ≤ totalSize (slots.take j) := by
  have hsplit : slots.take j = slots.take i ++ (slots.take j).drop i := by
    conv_lhs => rw [← List.take_append_drop i (slots.take j)]
    rw [List.take_take, min_eq_left h]
  rw [hsplit]
  simp [totalSize]

theorem totalSize_take_le (slots : List (Option Tuple)) (k : Nat) :
    totalSize (slots.take k) ≤ totalSize slots := by
  rcases Nat.le_total k slots.length with h | h
  · have hmono := totalSize_take_mono slots h
    rwa [List.take_length] at hmono
  · rw [List.take_of_length_le h]

section LastLive

variable {α : Type}

theorem lastLive_snoc (slots : List (Option α)) (slot : Option α) :
    lastLive (slots ++ [slot]) = if slot.isSome then slots.length else lastLive slots := by
  simp [lastLive, List.zipIdx_append]

theorem lastLive_take_succ {slots : List (Option α)} {k : Nat} {slot : Option α}
    (hk : slots[k]? = some slot) :
    lastLive (slots.take (k + 1)) = if slot.isSome then k else lastLive (slots.take k) := by
  obtain ⟨hlt, _⟩ := List.getElem?_eq_some_iff.mp hk
  rw [List.take_add_one, hk]
  simp only [Option.toList_some, lastLive_snoc, List.length_take, Nat.min_eq_left (le_of_lt hlt)]

/-- No live slot comes after the last one. -/
theorem le_lastLive {slots : List (Option α)} {i : Nat} {a : α}
    (hi : slots[i]? = some (some a)) : i ≤ lastLive slots := by
  induction slots using List.reverseRecOn with
  | nil => simp at hi
  | append_singleton slots slot ih =>
      rw [lastLive_snoc]
      obtain ⟨hlt, _⟩ := List.getElem?_eq_some_iff.mp hi
      rw [List.length_append, List.length_singleton] at hlt
      rcases Nat.lt_or_ge i slots.length with h | h
      · rw [List.getElem?_append_left h] at hi
        split
        · omega
        · exact ih hi
      · obtain rfl : i = slots.length := by omega
        rw [List.getElem?_append_right (le_refl _)] at hi
        simp only [Nat.sub_self, List.getElem?_cons_zero, Option.some.injEq] at hi
        rw [hi]
        simp

theorem lastLive_lt {slots : List (Option α)} (h : slots ≠ []) :
    lastLive slots < slots.length := by
  induction slots using List.reverseRecOn with
  | nil => exact absurd rfl h
  | append_singleton slots slot ih =>
      rw [lastLive_snoc, List.length_append, List.length_singleton]
      split
      · omega
      · rcases slots.eq_nil_or_concat with rfl | ⟨init, last, rfl⟩
        · simp [lastLive]
        · have hlt := ih (by simp)
          omega

/-- Which slot is the last live one does not depend on what is in the slots. -/
theorem lastLive_map {β : Type} (slots : List (Option α)) (f : α → β) :
    lastLive (slots.map (Option.map f)) = lastLive slots := by
  induction slots using List.reverseRecOn with
  | nil => rfl
  | append_singleton slots slot ih =>
      rw [List.map_append, List.map_singleton, lastLive_snoc, lastLive_snoc, ih]
      simp

end LastLive

/-- Where the live tuples end up: slot `i` right below the ones before it. -/
def compact (slots : List (Option Tuple)) : List (Option Tuple) :=
  slots.mapIdx fun i slot =>
    slot.map fun t => { t with offset := 4096 - totalSize (slots.take (i + 1)) }

@[simp] theorem compact_length (slots : List (Option Tuple)) :
    (compact slots).length = slots.length := by
  simp [compact]

theorem compact_some {slots : List (Option Tuple)} {i : Nat} {u : Tuple}
    (hi : (compact slots)[i]? = some (some u)) :
    ∃ t, slots[i]? = some (some t) ∧
      u = { t with offset := 4096 - totalSize (slots.take (i + 1)) } := by
  simp only [compact, List.getElem?_mapIdx, Option.map_eq_some_iff] at hi
  obtain ⟨slot, hslot, t, rfl, hu⟩ := hi
  exact ⟨t, hslot, hu.symm⟩

theorem compact_of_some {slots : List (Option Tuple)} {i : Nat} {t : Tuple}
    (hi : slots[i]? = some (some t)) :
    (compact slots)[i]? =
      some (some { t with offset := 4096 - totalSize (slots.take (i + 1)) }) := by
  simp [compact, List.getElem?_mapIdx, hi]

/-! ## The compacted page -/

namespace SlottedPage

variable {schema : Schema}

/-- The live tuples are no longer together than the room above the floor. -/
theorem floor_add_total_le (sp : SlottedPage schema) : sp.floor + totalSize sp.slots ≤ 4096 := by
  have hle := sp.floor_le
  have hfloor : sp.floor = 8 + 4 * sp.slots.length + sp.freeSpace := rfl
  -- the slots as a family of ranges
  have hslot : ∀ i : Fin sp.slots.length, 0 < slotSize sp.slots[i] →
      ∃ t, sp.slots[i.val]? = some (some t) ∧ sp.slots[i] = some t := by
    intro i hpos
    cases hi : sp.slots[i] with
    | none =>
        rw [hi] at hpos
        exact absurd hpos (lt_irrefl 0)
    | some t =>
        have hget : sp.slots[i.val]? = some sp.slots[i.val] := List.getElem?_eq_getElem i.isLt
        exact ⟨t, hget.trans (congrArg some hi), rfl⟩
  have hsum := sum_length_le sp.floor 4096
    (fun i : Fin sp.slots.length => (sp.slots[i].map Tuple.offset).getD 0)
    (fun i => slotSize sp.slots[i])
    (by
      intro i hpos
      obtain ⟨t, hget, hi⟩ := hslot i hpos
      have hin := sp.inside i t hget
      simp only [hi, Option.map_some, Option.getD_some, slotSize]
      exact hin)
    (by
      intro i j hne hpos hpos'
      obtain ⟨t, hget, hi⟩ := hslot i hpos
      obtain ⟨u, hget', hj⟩ := hslot j hpos'
      simp only [hi, hj, Option.map_some, Option.getD_some, slotSize]
      exact sp.disjoint i j t u hget hget' (fun h => hne (Fin.ext h)))
  have htotal : ∑ i : Fin sp.slots.length, slotSize sp.slots[i] = totalSize sp.slots :=
    Fin.sum_univ_fun_getElem sp.slots slotSize
  rw [htotal] at hsum
  omega

/-- Where slot `i` of the compacted page starts and ends. -/
theorem compact_range (sp : SlottedPage schema) {i : Nat} {u : Tuple}
    (hi : (compact sp.slots)[i]? = some (some u)) :
    u.offset + totalSize (sp.slots.take (i + 1)) = 4096 ∧
      u.offset + u.size + totalSize (sp.slots.take i) = 4096 := by
  obtain ⟨t, ht, rfl⟩ := compact_some hi
  have htotal := sp.floor_add_total_le
  have hle := totalSize_take_le sp.slots (i + 1)
  have hsucc := totalSize_take_succ ht
  have hsize : (Tuple.mk (4096 - totalSize (sp.slots.take (i + 1))) t.header t.values).size =
      slotSize (some t) := rfl
  rw [hsize]
  dsimp only
  omega

/-- The page `vacuum` builds. -/
def vacuumed (sp : SlottedPage schema) : SlottedPage schema :=
  have hlive : ∀ (i : Nat) (u : Tuple),
      ((compact sp.slots).take (lastLive sp.slots + 1))[i]? = some (some u) →
      (compact sp.slots)[i]? = some (some u) := by
    intro i u hu
    rw [List.getElem?_take] at hu
    split at hu
    · exact hu
    · cases hu
  have hroom : 8 + 4 * ((compact sp.slots).take (lastLive sp.slots + 1)).length +
      totalSize sp.slots ≤ 4096 := by
    have htotal := sp.floor_add_total_le
    have hfloor : sp.floor = 8 + 4 * sp.slots.length + sp.freeSpace := rfl
    rw [List.length_take, compact_length]
    omega
  { slots := (compact sp.slots).take (lastLive sp.slots + 1)
    freeSpace := 4088 - 4 * ((compact sp.slots).take (lastLive sp.slots + 1)).length -
      totalSize sp.slots
    floor_le := by omega
    inside := by
      intro i u hu
      have hrange := sp.compact_range (hlive i u hu)
      have hle := totalSize_take_le sp.slots (i + 1)
      omega
    disjoint := by
      intro i j u v hu hv hne
      have hui := sp.compact_range (hlive i u hu)
      have hvj := sp.compact_range (hlive j v hv)
      rcases Nat.lt_or_gt_of_ne hne with hlt | hgt
      · have hmono := totalSize_take_mono sp.slots (show i + 1 ≤ j from hlt)
        omega
      · have hmono := totalSize_take_mono sp.slots (show j + 1 ≤ i from hgt)
        omega
    fits := by
      intro i u hu
      obtain ⟨t, ht, rfl⟩ := compact_some (hlive i u hu)
      exact ⟨(sp.fits i t ht).header, (sp.fits i t ht).values⟩ }

end SlottedPage

/-! ## The loop -/

section Loop

open HeapFilePage

variable {schema : Schema} {sp : SlottedPage schema} {p : Page}

/-- What holds when the first `k` slots are done. -/
structure Vacuumed (sp : SlottedPage schema) (k : Nat) (s : VacuumState) : Prop where
  dirCount : s.dirCount = k
  last : s.lastUsefulDirCount = lastLive (sp.slots.take k)
  free : s.freeSpace = 4088 - 4 * k - totalSize (sp.slots.take k)
  laid : ∀ (i : Nat) (slot : Option Tuple), i < k → (compact sp.slots)[i]? = some slot →
    SlotLaid s.pageBuf i slot

/-- Writes at slot `k`'s directory entry, or between the directory and the tuples
copied so far, keep the slots before `k`. -/
theorem laid_splice {buf : PageBytes} {k a : Nat} {d : List UInt8}
    (hlaid : ∀ (i : Nat) (slot : Option Tuple), i < k → (compact sp.slots)[i]? = some slot →
      SlotLaid buf i slot)
    (ha : 8 + 4 * k ≤ a) (hend : a + d.length + totalSize (sp.slots.take k) ≤ 4096) (i : Nat)
    (slot : Option Tuple) (hi : i < k) (hslot : (compact sp.slots)[i]? = some slot) :
    SlotLaid (buf.splice a d) i slot := by
  refine (hlaid i slot hi hslot).splice (by omega) ?_
  intro u hu
  rw [hu] at hslot
  have hrange := sp.compact_range hslot
  have hmono := totalSize_take_mono sp.slots (show i + 1 ≤ k from hi)
  omega

/-- One pass of the loop, on a dead slot. -/
theorem vacuumSlot_dead (hr : Represents sp p) {k : Nat} {s : VacuumState}
    (hs : Vacuumed sp k s) (hk : sp.slots[k]? = some none) :
    ∃ s', vacuumSlot schema p k s = .ok s' ∧ Vacuumed sp (k + 1) s' := by
  obtain ⟨hlt, _⟩ := List.getElem?_eq_some_iff.mp hk
  have hle := sp.floor_le
  have htotal := sp.floor_add_total_le
  have hfloor : sp.floor = 8 + 4 * sp.slots.length + sp.freeSpace := rfl
  have htake := totalSize_take_le sp.slots k
  obtain ⟨dir, hneg, hdir⟩ := getDir_dead hr hk
  have hbounds : Page.InBounds (headerSize + dirSize * (k : Int)) 4 :=
    ⟨by simp only [headerSize, dirSize]; omega,
      by simp only [headerSize, dirSize, Page.size]; omega⟩
  have hnat : (headerSize + dirSize * (k : Int)).toNat = 8 + 4 * k := by
    simp only [headerSize, dirSize]
    omega
  refine ⟨⟨s.dirCount + 1, s.lastUsefulDirCount, s.freeSpace - dirSize,
      s.pageBuf.splice (8 + 4 * k) (intBytes 4 (-1))⟩, ?_, ?_, ?_, ?_, ?_⟩
  · simp only [vacuumSlot, hdir, Outcome.ok_bind, if_pos hneg, bufWriteInt32, if_pos hbounds, hnat]
  · simp only [hs.dirCount]
    push_cast
    ring
  · rw [lastLive_take_succ hk]
    exact hs.last
  · rw [totalSize_take_succ hk]
    simp only [hs.free, dirSize, slotSize]
    push_cast
    ring
  · intro i slot hi hslot
    rcases Nat.lt_or_ge i k with h | h
    · exact laid_splice hs.laid (le_refl _) (by rw [intBytes_length]; omega) i slot h hslot
    · obtain rfl : i = k := by omega
      cases slot with
      | none => exact ⟨-1, by norm_num, Block.holds_splice_self (by rw [intBytes_length]; omega)⟩
      | some u =>
          obtain ⟨t, ht, _⟩ := compact_some hslot
          rw [hk] at ht
          cases ht

/-- One pass of the loop, on a live slot: the tuple is copied right below the
ones before it. -/
theorem vacuumSlot_live (hr : Represents sp p) {k : Nat} {s : VacuumState} {t : Tuple}
    (hs : Vacuumed sp k s) (hk : sp.slots[k]? = some (some t)) :
    ∃ s', vacuumSlot schema p k s = .ok s' ∧ Vacuumed sp (k + 1) s' := by
  obtain ⟨hlt, _⟩ := List.getElem?_eq_some_iff.mp hk
  have hle := sp.floor_le
  have htotal := sp.floor_add_total_le
  have hfloor : sp.floor = 8 + 4 * sp.slots.length + sp.freeSpace := rfl
  have hsucc : totalSize (sp.slots.take (k + 1)) = totalSize (sp.slots.take k) + t.size :=
    totalSize_take_succ hk
  have htake := totalSize_take_le sp.slots (k + 1)
  have hin := sp.inside k t hk
  have hnonneg : ¬ (t.offset : Int) < 0 := by omega
  obtain ⟨a, ha⟩ : ∃ a, 4096 - totalSize (sp.slots.take (k + 1)) = a := ⟨_, rfl⟩
  have hsize : 32 + (t.values.map valueSize).sum = t.size := rfl
  have hoffset : headerSize + dirSize * (s.dirCount + 1) + (s.freeSpace - dirSize - (t.size : Nat)) =
      a := by
    simp only [hs.dirCount, hs.free, headerSize, dirSize]
    omega
  have hentry : headerSize + dirSize * (s.dirCount + 1 - 1) = (8 + 4 * k : Nat) := by
    simp only [hs.dirCount, headerSize, dirSize]
    push_cast
    ring
  have hboundsDir : Page.InBounds ((8 + 4 * k : Nat) : Int) 4 :=
    ⟨by omega, by simp only [Page.size]; omega⟩
  have hboundsDst : Page.InBounds (a : Int) t.size := ⟨by omega, by simp only [Page.size]; omega⟩
  have hread : p.read (t.offset : Int) t.size = .ok t.bytes := by
    have h := read_of_holds (p := p) (o := t.offset) rfl (hr.slot k _ hk).2
      (by rw [Tuple.bytes_length]; omega)
    rwa [Tuple.bytes_length] at h
  refine ⟨⟨s.dirCount + 1, s.dirCount, s.freeSpace - dirSize - (t.size : Nat),
      (s.pageBuf.splice (8 + 4 * k) (intBytes 4 a)).splice a t.bytes⟩, ?_, ?_, ?_, ?_, ?_⟩
  · simp only [vacuumSlot, getDir_live hr hk, Outcome.ok_bind, if_neg hnonneg, getRecord_live hr hk,
      hsize, hoffset, hentry, bufWriteInt32, if_pos hboundsDir, Int.toNat_natCast, bufCopy, hread,
      if_pos hboundsDst]
  · simp only [hs.dirCount]
    push_cast
    ring
  · rw [lastLive_take_succ hk]
    simpa using hs.dirCount
  · rw [hsucc]
    simp only [hs.free, dirSize]
    push_cast
    ring
  · intro i slot hi hslot
    rcases Nat.lt_or_ge i k with h | h
    · exact laid_splice (laid_splice hs.laid (le_refl _) (by rw [intBytes_length]; omega))
        (by omega) (by rw [Tuple.bytes_length]; omega) i slot h hslot
    · obtain rfl : i = k := by omega
      rw [compact_of_some hk, ha] at hslot
      cases hslot
      refine ⟨(Block.holds_splice_self ?_).splice_of_disjoint ?_, Block.holds_splice_self ?_⟩
      · rw [intBytes_length]
        omega
      · rw [intBytes_length]
        omega
      · rw [Tuple.bytes_length]
        omega

/-- The loop from slot `k` on. -/
theorem vacuumLoop_spec (hr : Represents sp p) : ∀ (slots k : Nat) (s : VacuumState),
    k + slots = sp.slots.length → Vacuumed sp k s →
    ∃ s', vacuumLoop schema p slots k s = .ok s' ∧ Vacuumed sp sp.slots.length s' := by
  intro slots
  induction slots with
  | zero =>
      intro k s hlen hs
      obtain rfl : k = sp.slots.length := by omega
      exact ⟨s, rfl, hs⟩
  | succ slots ih =>
      intro k s hlen hs
      have hlt : k < sp.slots.length := by omega
      have hget : sp.slots[k]? = some sp.slots[k] := List.getElem?_eq_getElem hlt
      obtain ⟨s', hslot, hs'⟩ : ∃ s', vacuumSlot schema p k s = .ok s' ∧ Vacuumed sp (k + 1) s' := by
        cases hk : sp.slots[k] with
        | none => exact vacuumSlot_dead hr hs (hget.trans (congrArg some hk))
        | some t => exact vacuumSlot_live hr hs (hget.trans (congrArg some hk))
      obtain ⟨s'', hloop, hs''⟩ := ih (k + 1) s' (by omega) hs'
      refine ⟨s'', ?_, hs''⟩
      push_cast at hloop
      simp only [vacuumLoop, hslot, Outcome.ok_bind, hloop]

/-- The page `vacuum` leaves when the loop ends in `s`. -/
theorem vacuum_eq (hr : Represents sp p) (buf : PageBytes) :
    ∃ s, Vacuumed sp sp.slots.length s ∧
      vacuum schema p buf =
        .ok (((p.patch 0 (s.pageBuf.slice 0 4096)).patch 0
          (intBytes 4 (lastLive sp.slots + 1 : Nat))).patch 4
          (intBytes 4 (4088 - 4 * (lastLive sp.slots + 1 : Nat) - totalSize sp.slots))) := by
  have hstart : Vacuumed sp 0 ⟨0, 0, Page.size - headerSize, buf⟩ :=
    ⟨rfl, rfl, rfl, fun i _ hi => absurd hi (Nat.not_lt_zero i)⟩
  obtain ⟨s, hloop, hs⟩ := vacuumLoop_spec hr sp.slots.length 0 _ (by omega) hstart
  refine ⟨s, hs, ?_⟩
  have hlast : s.lastUsefulDirCount + 1 = (lastLive sp.slots + 1 : Nat) := by
    rw [hs.last, List.take_length]
    push_cast
    rfl
  have hfree : s.freeSpace + (s.dirCount - (lastLive sp.slots + 1 : Nat)) * dirSize =
      4088 - 4 * (lastLive sp.slots + 1 : Nat) - totalSize sp.slots := by
    rw [hs.free, hs.dirCount, List.take_length]
    simp only [dirSize]
    push_cast
    ring
  have hwrite : p.write 0 (s.pageBuf.slice 0 Page.size) =
      .ok (p.patch 0 (s.pageBuf.slice 0 4096)) :=
    write_patch rfl (by rw [Block.slice_length]; exact le_refl _)
  have hcount := writeInt32_patch (p := p.patch 0 (s.pageBuf.slice 0 4096)) (a := 0) (o := 0)
    (v := (lastLive sp.slots + 1 : Nat)) rfl (by omega)
  push_cast at hloop
  simp only [vacuum, getDirCount_eq hr, Outcome.ok_bind, Int.toNat_natCast, hloop, hlast, hfree,
    hwrite, hcount]
  exact writeInt32_patch rfl (by omega)

/-- On a page that has slots, `vacuum` builds the vacuumed page. -/
theorem vacuum_spec (hr : Represents sp p) (hne : sp.slots ≠ []) (buf : PageBytes) :
    ∃ p', vacuum schema p buf = .ok p' ∧ p'.pageId = p.pageId ∧ Represents sp.vacuumed p' := by
  obtain ⟨s, hs, heq⟩ := vacuum_eq hr buf
  have hlast := lastLive_lt hne
  have htotal := sp.floor_add_total_le
  have hfloor : sp.floor = 8 + 4 * sp.slots.length + sp.freeSpace := rfl
  have hlen : sp.vacuumed.slots.length = lastLive sp.slots + 1 := by
    show ((compact sp.slots).take (lastLive sp.slots + 1)).length = _
    rw [List.length_take, compact_length]
    omega
  have hfree : (sp.vacuumed.freeSpace : Int) =
      4088 - 4 * (lastLive sp.slots + 1 : Nat) - totalSize sp.slots := by
    have hdef : sp.vacuumed.freeSpace =
        4088 - 4 * sp.vacuumed.slots.length - totalSize sp.slots := rfl
    rw [hdef, hlen]
    omega
  refine ⟨_, heq, by simp only [Page.patch_pageId], ?_⟩
  have hbytes : (p.patch 0 (s.pageBuf.slice 0 4096)).bytes = s.pageBuf := by
    rw [Page.patch_bytes]
    exact Block.splice_slice_all (n := 4096) p.bytes s.pageBuf
  constructor
  case count =>
    rw [hlen]
    exact (Block.holds_splice_self (by rw [intBytes_length]; omega)).splice_of_disjoint
      (by simp only [intBytes_length]; omega)
  case free =>
    rw [hfree]
    exact Block.holds_splice_self (by rw [intBytes_length]; omega)
  case slot =>
    refine sp.vacuumed.slot_splice_counters (by simp)
      (sp.vacuumed.slot_splice_counters (by simp) ?_)
    intro i slot hi
    rw [hbytes]
    change ((compact sp.slots).take (lastLive sp.slots + 1))[i]? = some slot at hi
    obtain ⟨hlt, _⟩ := List.getElem?_eq_some_iff.mp hi
    rw [List.length_take, compact_length] at hlt
    rw [List.getElem?_take, if_pos (by omega)] at hi
    exact hs.laid i slot (by omega) hi

end Loop

end Iic3413Db.Storage
