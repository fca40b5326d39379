import Mathlib.Data.List.Basic
import Mathlib.Algebra.GroupWithZero.Nat

/-!
# Frames on a byte stream

A frame is a body behind its length, which is a number of four bytes, the most significant one first.  A reader takes
the bytes in pieces of any size, and may be stopped between two pieces.

* `frame`, `frames`    the bytes of a body, and of bodies one after the other;
* `Inbox`              what a stream has for its reader;
* `Reader.poll`        reads until a frame is complete; the counts are what the stream gives at each read;
* `Reader.Follows`     the reader is somewhere in a stream of frames;
* `Follows.poll`       **a poll gives the next frame, or keeps its place.**
-/

namespace Framing

/-! ## lengths -/

def beBytes (n : Nat) : List UInt8 :=
  [UInt8.ofNat (n / 2 ^ 24), UInt8.ofNat (n / 2 ^ 16), UInt8.ofNat (n / 2 ^ 8), UInt8.ofNat n]

def fromBe (bytes : List UInt8) : Nat := bytes.foldl (fun n b => 256 * n + b.toNat) 0

theorem fromBe_beBytes {n : Nat} (h : n < 2 ^ 32) : fromBe (beBytes n) = n := by
  simp only [fromBe, beBytes, List.foldl_cons, List.foldl_nil, UInt8.toNat_ofNat']
  omega

theorem length_beBytes (n : Nat) : (beBytes n).length = 4 := rfl

def frame (body : List UInt8) : List UInt8 := beBytes body.length ++ body

def frames (bodies : List (List UInt8)) : List UInt8 := bodies.flatMap frame

theorem length_frame (body : List UInt8) : (frame body).length = 4 + body.length := by
  rw [frame, List.length_append, length_beBytes]

theorem frames_cons (body : List UInt8) (bodies : List (List UInt8)) :
    frames (body :: bodies) = frame body ++ frames bodies := List.flatMap_cons

theorem frames_append (a b : List (List UInt8)) : frames (a ++ b) = frames a ++ frames b := List.flatMap_append

/-! ## reading -/

/-- the bytes that have arrived, and whether no more will -/
structure Inbox where
  bytes : List UInt8
  closed : Bool
  deriving DecidableEq

/-- a read into a buffer of `room` bytes, which gets at most `count + 1` of them: nothing at all at the end of the
stream, and no answer while nothing is there -/
def Inbox.read (i : Inbox) (room count : Nat) : Option (List UInt8 × Inbox) :=
  if i.bytes = [] then if i.closed then some ([], i) else none
  else some (i.bytes.take (min room (count + 1)), { i with bytes := i.bytes.drop (min room (count + 1)) })

/-- the bytes of the header and of the body that have been read -/
structure Reader where
  header : List UInt8
  body : List UInt8
  deriving DecidableEq

def Reader.start : Reader := ⟨[], []⟩

inductive Progress where
  | pending
  | eof
  | oversize
  | complete (body : List UInt8)
  deriving DecidableEq

namespace Reader

def size (r : Reader) : Nat := fromBe r.header

def missing (limit : Nat) (r : Reader) : Option Nat :=
  if r.header.length < 4 then some (4 - r.header.length)
  else if r.size = 0 ∨ limit < r.size then none
  else some (r.size - r.body.length)

def fill (r : Reader) (bytes : List UInt8) : Reader :=
  if r.header.length < 4 then { r with header := r.header ++ bytes } else { r with body := r.body ++ bytes }

/-- reads until the frame is complete, the stream ends, or the counts do: that is where the caller drops the future -/
def poll (limit : Nat) : List Nat → Reader → Inbox → Progress × Reader × Inbox
  | counts, r, i =>
    match r.missing limit with
    | none => (.oversize, r, i)
    | some 0 => (.complete r.body, r, i)
    | some (room + 1) =>
      match counts with
      | [] => (.pending, r, i)
      | count :: counts =>
        match i.read (room + 1) count with
        | none => (.pending, r, i)
        | some ([], i) => (.eof, r, i)
        | some (bytes, i) => poll limit counts (r.fill bytes) i

/-- what has been read since the last frame was complete -/
def held (r : Reader) : List UInt8 := r.header ++ r.body

end Reader

/-! ## a reader in a stream of frames -/

/-- what has been read and the bytes `rest` that are to come are the frames of these bodies, and no more has been read
than belongs to the first one -/
structure Reader.Follows (r : Reader) (rest : List UInt8) (bodies : List (List UInt8)) : Prop where
  held : r.held ++ rest = frames bodies
  header : r.header.length ≤ 4
  empty : r.header.length < 4 → r.body = []
  body : r.header.length = 4 → r.body.length ≤ r.size

/-- a body that a frame may have -/
def Allowed (limit : Nat) (body : List UInt8) : Prop := body ≠ [] ∧ body.length ≤ limit

namespace Reader

variable {limit : Nat} {r : Reader} {rest coming : List UInt8} {bodies : List (List UInt8)}

theorem follows_start (bodies : List (List UInt8)) : start.Follows (frames bodies) bodies where
  held := rfl
  header := Nat.zero_le 4
  empty := fun _ => rfl
  body := fun h => nomatch h

theorem Follows.append (h : r.Follows rest bodies) (more : List (List UInt8)) :
    r.Follows (rest ++ frames more) (bodies ++ more) where
  held := by
    rw [← List.append_assoc, h.held, frames_append]
  header := h.header
  empty := h.empty
  body := h.body

theorem Follows.first (h : r.Follows rest bodies) (hallowed : ∀ b ∈ bodies, Allowed limit b)
    (hlimit : limit < 2 ^ 32) (hheader : r.header.length = 4) :
    ∃ b bs, bodies = b :: bs ∧ r.size = b.length ∧ r.body ++ rest = b ++ frames bs := by
  cases bodies with
  | nil =>
    have hnil := congrArg List.length h.held
    rw [Reader.held, List.length_append, List.length_append] at hnil
    simp only [frames, List.flatMap_nil, List.length_nil] at hnil
    omega
  | cons b bs =>
    have hheld := h.held
    rw [Reader.held, frames_cons, frame, List.append_assoc, List.append_assoc] at hheld
    obtain ⟨hhead, hbody⟩ := List.append_inj hheld (hheader.trans (length_beBytes _).symm)
    have hb := hallowed b List.mem_cons_self
    refine ⟨b, bs, rfl, ?_, hbody⟩
    rw [size, hhead, fromBe_beBytes (Nat.lt_of_le_of_lt hb.2 hlimit)]

theorem Follows.missing_ne (h : r.Follows rest bodies) (hallowed : ∀ b ∈ bodies, Allowed limit b)
    (hlimit : limit < 2 ^ 32) : r.missing limit ≠ none := by
  unfold missing
  split
  · exact fun hn => nomatch hn
  · rename_i hlong
    have hheader := h.header
    obtain ⟨b, bs, rfl, hsize, -⟩ := h.first hallowed hlimit (by omega)
    have hb := hallowed b List.mem_cons_self
    have hpos := List.length_pos_iff.mpr hb.1
    rw [if_neg (by rw [hsize]; have := hb.2; omega)]
    exact fun hn => nomatch hn

theorem Follows.complete (h : r.Follows rest bodies) (hallowed : ∀ b ∈ bodies, Allowed limit b)
    (hlimit : limit < 2 ^ 32) (hmissing : r.missing limit = some 0) :
    ∃ bs, bodies = r.body :: bs ∧ rest = frames bs := by
  unfold missing at hmissing
  split at hmissing
  · rename_i hshort
    have hzero := Option.some.inj hmissing
    omega
  · rename_i hlong
    have hheader := h.header
    obtain ⟨b, bs, rfl, hsize, hbody⟩ := h.first hallowed hlimit (by omega)
    split at hmissing
    · cases hmissing
    · have hzero := Option.some.inj hmissing
      have hle := h.body (by omega)
      obtain ⟨hbodyEq, hrest⟩ := List.append_inj hbody (by omega)
      exact ⟨bs, by rw [hbodyEq], hrest⟩

theorem Follows.fill {bytes : List UInt8} (h : r.Follows (bytes ++ rest) bodies) {n : Nat}
    (hmissing : r.missing limit = some n) (hle : bytes.length ≤ n) : (r.fill bytes).Follows rest bodies := by
  unfold missing at hmissing
  unfold Reader.fill
  split at hmissing
  · rename_i hshort
    have hn := Option.some.inj hmissing
    have hnil := h.empty hshort
    rw [if_pos hshort]
    refine ⟨?_, ?_, fun _ => hnil, fun _ => ?_⟩
    · have hheld := h.held
      rw [Reader.held, hnil, List.append_nil] at hheld
      rw [Reader.held, hnil, List.append_nil, List.append_assoc]
      exact hheld
    · rw [List.length_append]
      omega
    · rw [hnil]
      exact Nat.zero_le _
  · rename_i hlong
    rw [if_neg hlong]
    split at hmissing
    · cases hmissing
    · have hn := Option.some.inj hmissing
      have hheader := h.header
      have hbody := h.body (by omega)
      refine ⟨?_, h.header, fun hshort => absurd hshort hlong, fun _ => ?_⟩
      · have hheld := h.held
        rw [Reader.held] at hheld ⊢
        simpa only [List.append_assoc] using hheld
      · rw [List.length_append]
        show r.body.length + bytes.length ≤ r.size
        omega

theorem poll_read {room count : Nat} {counts : List Nat} {i i' : Inbox} {bytes : List UInt8}
    (hmissing : r.missing limit = some (room + 1)) (hread : i.read (room + 1) count = some (bytes, i'))
    (hne : bytes ≠ []) : poll limit (count :: counts) r i = poll limit counts (r.fill bytes) i' := by
  obtain ⟨b, rest, rfl⟩ := List.exists_cons_of_ne_nil hne
  rw [poll, hmissing]
  simp only [hread]

theorem poll_complete (counts : List Nat) (r : Reader) (i : Inbox) (hmissing : r.missing limit = some 0) :
    poll limit counts r i = (.complete r.body, r, i) := by
  cases counts <;> rw [poll, hmissing]

/-- **A poll gives the next frame, or keeps its place in the stream, or finds that the stream has ended.** -/
theorem Follows.poll (hallowed : ∀ b ∈ bodies, Allowed limit b) (hlimit : limit < 2 ^ 32) :
    ∀ (counts : List Nat) (r : Reader) (i : Inbox), r.Follows (i.bytes ++ coming) bodies →
      (∃ r' i', poll limit counts r i = (.pending, r', i') ∧ r'.Follows (i'.bytes ++ coming) bodies ∧
        i'.closed = i.closed) ∨
      (∃ r' i', poll limit counts r i = (.eof, r', i') ∧ i.closed = true) ∨
      (∃ b bs r' i', poll limit counts r i = (.complete b, r', i') ∧ bodies = b :: bs ∧
        i'.bytes ++ coming = frames bs ∧ i'.closed = i.closed) := by
  intro counts
  induction counts with
  | nil =>
    intro r i h
    cases hm : r.missing limit with
    | none => exact absurd hm (h.missing_ne hallowed hlimit)
    | some n =>
      cases n with
      | zero =>
        obtain ⟨bs, hbodies, hrest⟩ := h.complete hallowed hlimit hm
        exact .inr (.inr ⟨r.body, bs, r, i, poll_complete [] r i hm, hbodies, hrest, rfl⟩)
      | succ room => exact .inl ⟨r, i, by rw [Reader.poll, hm], h, rfl⟩
  | cons count counts ih =>
    intro r i h
    cases hm : r.missing limit with
    | none => exact absurd hm (h.missing_ne hallowed hlimit)
    | some n =>
      cases n with
      | zero =>
        obtain ⟨bs, hbodies, hrest⟩ := h.complete hallowed hlimit hm
        exact .inr (.inr ⟨r.body, bs, r, i, poll_complete (count :: counts) r i hm, hbodies, hrest, rfl⟩)
      | succ room =>
        by_cases hnil : i.bytes = []
        · cases hclosed : i.closed with
          | true => exact .inr (.inl ⟨r, i, by simp [Reader.poll, hm, Inbox.read, hnil, hclosed], rfl⟩)
          | false => exact .inl ⟨r, i, by simp [Reader.poll, hm, Inbox.read, hnil, hclosed], h, hclosed⟩
        · have hread : i.read (room + 1) count = some (i.bytes.take (min (room + 1) (count + 1)),
              { i with bytes := i.bytes.drop (min (room + 1) (count + 1)) }) := by
            rw [Inbox.read, if_neg hnil]
          have hfollows : (r.fill (i.bytes.take (min (room + 1) (count + 1)))).Follows
              (i.bytes.drop (min (room + 1) (count + 1)) ++ coming) bodies := by
            refine Follows.fill ?_ hm ?_
            · rw [← List.append_assoc, List.take_append_drop]
              exact h
            · rw [List.length_take]
              omega
          rw [poll_read hm hread (by simp [hnil])]
          exact ih _ { i with bytes := i.bytes.drop (min (room + 1) (count + 1)) } hfollows

/-- **Byte by byte a poll gets the next frame, or takes all that is there.** -/
theorem Follows.poll_bytes (hallowed : ∀ b ∈ bodies, Allowed limit b) (hlimit : limit < 2 ^ 32) (n : Nat) :
    ∀ (r : Reader) (i : Inbox), i.bytes.length = n → r.Follows (i.bytes ++ coming) bodies →
      (∃ b bs r' i', Reader.poll limit (List.replicate (n + 1) 0) r i = (.complete b, r', i') ∧ bodies = b :: bs ∧
        i'.bytes ++ coming = frames bs ∧ i'.closed = i.closed) ∨
      (∃ r', Reader.poll limit (List.replicate (n + 1) 0) r i = (if i.closed then .eof else .pending, r', ⟨[], i.closed⟩) ∧
        r'.Follows coming bodies ∧ r'.missing limit ≠ some 0) := by
  have hdone : ∀ (n : Nat) (r : Reader) (i : Inbox), i.bytes.length = n → r.Follows (i.bytes ++ coming) bodies →
      r.missing limit = some 0 → ∃ b bs r' i', Reader.poll limit (List.replicate (n + 1) 0) r i = (.complete b, r', i') ∧
        bodies = b :: bs ∧ i'.bytes ++ coming = frames bs ∧ i'.closed = i.closed := by
    intro n r i hn h hm
    obtain ⟨bs, hbodies, hrest⟩ := h.complete hallowed hlimit hm
    exact ⟨r.body, bs, r, i, poll_complete _ r i hm, hbodies, hrest, rfl⟩
  induction n with
  | zero =>
    intro r i hn h
    have hnil : i.bytes = [] := List.length_eq_zero_iff.mp hn
    cases hm : r.missing limit with
    | none => exact absurd hm (h.missing_ne hallowed hlimit)
    | some missing =>
      cases missing with
      | zero => exact .inl (hdone 0 r i hn h hm)
      | succ room =>
        refine .inr ⟨r, ?_, by rwa [hnil] at h, by simp [hm]⟩
        obtain ⟨bytes, closed⟩ := i
        obtain rfl : bytes = [] := hnil
        cases closed <;> simp [Reader.poll, hm, Inbox.read]
  | succ n ih =>
    intro r i hn h
    cases hm : r.missing limit with
    | none => exact absurd hm (h.missing_ne hallowed hlimit)
    | some missing =>
      cases missing with
      | zero => exact .inl (hdone (n + 1) r i hn h hm)
      | succ room =>
        obtain ⟨x, bytes, hbytes⟩ := List.exists_cons_of_length_eq_add_one hn
        have hread : i.read (room + 1) 0 = some ([x], { i with bytes }) := by
          rw [Inbox.read, hbytes, if_neg (List.cons_ne_nil x bytes)]
          simp
        have hfollows : (r.fill [x]).Follows (bytes ++ coming) bodies := by
          rw [hbytes] at h
          exact Follows.fill h hm (Nat.succ_le_succ (Nat.zero_le room))
        have hlength : bytes.length = n := by
          rw [hbytes] at hn
          exact Nat.succ.inj hn
        rw [List.replicate_succ, poll_read hm hread (List.cons_ne_nil x [])]
        rcases ih (r.fill [x]) { i with bytes } hlength hfollows with ⟨b, bs, r', i', hpoll, hbodies, hrest, hclosed⟩ | hend
        · exact .inl ⟨b, bs, r', i', hpoll, hbodies, hrest, hclosed⟩
        · exact .inr hend

theorem Follows.last {b : List UInt8} {bs : List (List UInt8)} (h : r.Follows [] (b :: bs))
    (hallowed : ∀ x ∈ b :: bs, Allowed limit x) (hlimit : limit < 2 ^ 32) : r.missing limit = some 0 := by
  have hlength := congrArg List.length h.held
  rw [List.append_nil, Reader.held, List.length_append, frames_cons, List.length_append, length_frame] at hlength
  have hheader : r.header.length = 4 := by
    have hle := h.header
    by_contra hne
    rw [h.empty (by omega), List.length_nil] at hlength
    omega
  obtain ⟨b', bs', he, hsize, hbody⟩ := h.first hallowed hlimit hheader
  obtain ⟨rfl, rfl⟩ := List.cons.inj he
  have hb := hallowed b List.mem_cons_self
  have hpos := List.length_pos_iff.mpr hb.1
  have hle := h.body hheader
  rw [missing, if_neg (by omega), if_neg (by rw [hsize]; have := hb.2; omega)]
  exact congrArg some (by omega)

end Reader

end Framing
