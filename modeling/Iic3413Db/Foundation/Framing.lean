/-
  Foundation/Framing.lean --- messages of bytes on a stream: a length in a fixed
  number of bytes, most significant first, and then a body.

  A `Reader` takes as many bytes of the stream as there are, but never more than
  the header or the body still lacks.  Its state is that of the bytes it has read,
  however they were cut (`Reader.after`).  A `Link` is a sender, the bytes on the
  way and a reader: it is `Quiet` between two messages and `Carries` one of them.
-/
import Iic3413Db.Foundation.Bytes

set_option autoImplicit false

namespace Iic3413Db.Foundation

/-! ## Big-endian integers -/

/-- The `k` low bytes of `v`, most significant first. -/
def beBytes (k v : Nat) : List UInt8 := (leBytes k v).reverse

/-- The natural number a big-endian byte list denotes. -/
def beValue (bs : List UInt8) : Nat := leValue bs.reverse

@[simp] theorem beBytes_length (k v : Nat) : (beBytes k v).length = k := by simp [beBytes]

theorem beValue_beBytes (k v : Nat) : beValue (beBytes k v) = v % 256 ^ k := by
  rw [beValue, beBytes, List.reverse_reverse, leValue_leBytes]

/-- A message as it is sent; the length loses what does not fit the header. -/
def frame (width : Nat) (body : List UInt8) : List UInt8 := beBytes width body.length ++ body

/-! ## Readers -/

/-- A reader, with the bytes it has of the header or of the body. -/
inductive Reader where
  | header (got : List UInt8)
  | body (len : Nat) (got : List UInt8)
  deriving DecidableEq, Repr

namespace Reader

/-- The bytes that are still missing. -/
def wants (width : Nat) : Reader → Nat
  | header got => width - got.length
  | body len got => len - got.length

/-- Read some of the bytes that are missing; a full header is decoded at once. -/
def feed (width : Nat) (chunk : List UInt8) : Reader → Reader
  | header got =>
      if (got ++ chunk).length < width then header (got ++ chunk)
      else body (beValue (got ++ chunk)) []
  | body len got => body len (got ++ chunk)

/-- The body, once it is there. -/
def done : Reader → Option (List UInt8)
  | header _ => none
  | body len got => if got.length = len then some got else none

/-- The state after some bytes of one message. -/
def after (width : Nat) (read : List UInt8) : Reader :=
  if read.length < width then header read
  else body (beValue (read.take width)) (read.drop width)

section After

variable {width : Nat} {read chunk rest b : List UInt8} {message : List UInt8}

theorem after_nil (h : 0 < width) : after width [] = header [] := if_pos h

/-- The cut between two chunks does not matter. -/
theorem feed_after (h : chunk.length ≤ (after width read).wants width) :
    (after width read).feed width chunk = after width (read ++ chunk) := by
  by_cases hread : read.length < width
  · rw [after, if_pos hread, wants] at h
    rw [after, if_pos hread, feed, after]
    split
    · rfl
    · rename_i hfull
      have hlength : (read ++ chunk).length = width := by
        rw [List.length_append] at hfull ⊢
        omega
      rw [← hlength, List.take_length, List.drop_length]
  · have hle : width ≤ read.length := Nat.le_of_not_lt hread
    have hboth : ¬ (read ++ chunk).length < width := by
      rw [List.length_append]
      omega
    rw [after, if_neg hread, feed, after, if_neg hboth, List.take_append_of_le_length hle,
      List.drop_append_of_le_length hle]

/-- A full header is the length, and what follows it is of the body. -/
theorem of_frame (hmessage : read ++ rest = frame width message) (hle : width ≤ read.length) :
    read.take width = beBytes width message.length ∧ read.drop width ++ rest = message := by
  rw [← List.take_append_drop width read, List.append_assoc, frame] at hmessage
  exact List.append_inj hmessage (by rw [List.length_take, Nat.min_eq_left hle, beBytes_length])

/-- Of a message the reader hands on as much as the header says. -/
theorem done_after (hmessage : read ++ rest = frame width message)
    (hdone : (after width read).done = some b) :
    b = message.take (message.length % 256 ^ width) ∧
      rest = message.drop (message.length % 256 ^ width) := by
  unfold after at hdone
  split at hdone
  · cases hdone
  · rename_i hread
    obtain ⟨hheader, hbody⟩ := of_frame hmessage (Nat.le_of_not_lt hread)
    rw [hheader, beValue_beBytes, done] at hdone
    split at hdone
    · rename_i hlength
      obtain rfl := Option.some.inj hdone
      rw [← hlength, ← hbody, List.take_left, List.drop_left]
      exact ⟨rfl, rfl⟩
    · cases hdone

/-- A message whose length fits the header is handed on whole. -/
theorem done_after_short (hmessage : read ++ rest = frame width message)
    (hshort : message.length < 256 ^ width) (hdone : (after width read).done = some b) :
    b = message ∧ rest = [] := by
  obtain ⟨hb, hrest⟩ := done_after hmessage hdone
  rw [Nat.mod_eq_of_lt hshort] at hb hrest
  rw [List.take_length] at hb
  rw [List.drop_length] at hrest
  exact ⟨hb, hrest⟩

end After

end Reader

/-! ## Links -/

/-- One direction of a connection. -/
structure Link where
  /-- what the sender has not written -/
  unsent : List UInt8
  /-- what is written and not read -/
  inFlight : List UInt8
  reader : Reader
  deriving DecidableEq, Repr

namespace Link

variable (width : Nat)

def fresh : Link := ⟨[], [], .header []⟩

def send (body : List UInt8) (l : Link) : Link := { l with unsent := frame width body }

/-- Write the next `n` bytes. -/
def write (n : Nat) (l : Link) : Link :=
  { l with unsent := l.unsent.drop n, inFlight := l.inFlight ++ l.unsent.take n }

/-- Read the next `n` bytes. -/
def read (n : Nat) (l : Link) : Link :=
  { l with inFlight := l.inFlight.drop n, reader := l.reader.feed width (l.inFlight.take n) }

/-- Start with the next message. -/
def next (l : Link) : Link := { l with reader := .header [] }

/-- There are `n` bytes to read, and the reader wants them. -/
def Readable (n : Nat) (l : Link) : Prop :=
  0 < n ∧ n ≤ l.inFlight.length ∧ n ≤ l.reader.wants width

/-- There are `n` bytes to write. -/
def Writable (n : Nat) (l : Link) : Prop := 0 < n ∧ n ≤ l.unsent.length

/-- A message is on its way. -/
def Carries (body : List UInt8) (l : Link) : Prop :=
  ∃ p, l.reader = .after width p ∧ p ++ (l.inFlight ++ l.unsent) = frame width body

variable {width} {l : Link} {body b : List UInt8} {n : Nat}

theorem send_carries (hwidth : 0 < width) : Carries width body (fresh.send width body) :=
  ⟨[], (Reader.after_nil hwidth).symm, rfl⟩

theorem Carries.write (h : Carries width body l) : Carries width body (l.write n) := by
  obtain ⟨p, hp, hmessage⟩ := h
  refine ⟨p, hp, ?_⟩
  rw [← hmessage, Link.write, List.append_assoc, List.take_append_drop]

theorem Carries.read (h : Carries width body l) (hn : l.Readable width n) :
    Carries width body (l.read width n) := by
  obtain ⟨p, hp, hmessage⟩ := h
  obtain ⟨_, _, hwants⟩ := hn
  have hchunk : (l.inFlight.take n).length ≤ (Reader.after width p).wants width := by
    rw [← hp]
    exact le_trans (List.length_take_le n l.inFlight) hwants
  refine ⟨p ++ l.inFlight.take n, ?_, ?_⟩
  · rw [Link.read, hp, Reader.feed_after hchunk]
  · rw [← hmessage, Link.read, List.append_assoc, ← List.append_assoc (l.inFlight.take n),
      List.take_append_drop]

/-- The reader hands on the message, and nothing of it is left. -/
theorem Carries.done (h : Carries width body l) (hshort : body.length < 256 ^ width)
    (hdone : l.reader.done = some b) : b = body ∧ l.next = fresh := by
  obtain ⟨p, hp, hmessage⟩ := h
  rw [hp] at hdone
  obtain ⟨hb, hrest⟩ := Reader.done_after_short hmessage hshort hdone
  obtain ⟨hinFlight, hunsent⟩ := List.append_eq_nil_iff.mp hrest
  exact ⟨hb, by rw [next, hinFlight, hunsent, fresh]⟩

/-- Between two messages nothing can be read. -/
theorem fresh_not_readable : ¬ fresh.Readable width n := by
  rintro ⟨hpos, hle, _⟩
  exact absurd hle (Nat.not_le_of_lt hpos)

theorem fresh_not_writable : ¬ fresh.Writable n := by
  rintro ⟨hpos, hle⟩
  exact absurd hle (Nat.not_le_of_lt hpos)

end Link

end Iic3413Db.Foundation
