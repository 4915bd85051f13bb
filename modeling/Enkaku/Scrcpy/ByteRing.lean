import Enkaku.Lib.Bytes

/-!
# The window of bytes under the demuxer

`ByteRing` of `byte-ring.ts`: an array, of which the bytes from `head` to `tail` are pending.  A push
that would go beyond the end moves them to the front, into an array twice as long, or four times, if
they do not fit.  Its operations are those of a queue of bytes (`perform_eq`).
-/

set_option autoImplicit false

namespace Enkaku.Scrcpy

open List

/-- The window lies inside the array, which is never empty. -/
structure ByteRing where
  buf : Bytes
  head : ℕ
  tail : ℕ
  ordered : head ≤ tail
  inside : tail ≤ buf.length
  nonempty : 0 < buf.length

/-- What an operation throws. -/
structure RangeError where
  message : String
  deriving DecidableEq, Repr

/-- `while (cap < need) cap *= 2`. -/
def grownCapacity (cap need : ℕ) (hcap : 0 < cap) : ℕ :=
  if cap < need then grownCapacity (cap * 2) need (by omega) else cap
termination_by need - cap

/-- It is long enough, and no shorter than it was. -/
theorem le_grownCapacity (cap need : ℕ) (hcap : 0 < cap) :
    need ≤ grownCapacity cap need hcap ∧ cap ≤ grownCapacity cap need hcap := by
  induction h : need - cap using Nat.strongRecOn generalizing cap with
  | ind n ih =>
    rw [grownCapacity]
    split_ifs with hlt
    · obtain ⟨hneed, hgrown⟩ := ih (need - cap * 2) (by omega) (cap * 2) (by omega) rfl
      exact ⟨hneed, by omega⟩
    · exact ⟨Nat.le_of_not_lt hlt, Nat.le_refl cap⟩

/-- `target.set(source, at)`. -/
def setAt (target source : Bytes) (at' : ℕ) : Bytes :=
  target.take at' ++ source ++ target.drop (at' + source.length)

theorem length_setAt {target source : Bytes} {at' : ℕ} (h : at' + source.length ≤ target.length) :
    (setAt target source at').length = target.length := by
  simp only [setAt, length_append, length_take, length_drop]
  omega

/-- What was there before the place is there still, and behind it is what was set. -/
theorem take_setAt {target source : Bytes} {at' : ℕ} (h : at' ≤ target.length) :
    (setAt target source at').take (at' + source.length) = target.take at' ++ source := by
  rw [setAt, take_left']
  rw [length_append, length_take, Nat.min_eq_left h]

namespace ByteRing

/-- `new ByteRing(initialCapacity)`. -/
def new (initialCapacity : ℕ) (h : 0 < initialCapacity) : ByteRing where
  buf := List.replicate initialCapacity 0
  head := 0
  tail := 0
  ordered := Nat.le_refl 0
  inside := Nat.zero_le _
  nonempty := by rwa [List.length_replicate]

def length (r : ByteRing) : ℕ := r.tail - r.head

/-- The pending bytes: what `view` shows. -/
def contents (r : ByteRing) : Bytes := (r.buf.drop r.head).take r.length

theorem length_le (r : ByteRing) : r.length ≤ r.buf.length :=
  (Nat.sub_le _ _).trans r.inside

@[simp] theorem length_contents (r : ByteRing) : r.contents.length = r.length := by
  have hinside := r.inside
  rw [contents, length, length_take, length_drop]
  omega

/-- The window at the front of this array, which has room for it. -/
def moved (r : ByteRing) (buf : Bytes) (h : r.length ≤ buf.length) (hpos : 0 < buf.length) : ByteRing where
  buf := setAt buf r.contents 0
  head := 0
  tail := r.length
  ordered := Nat.zero_le _
  inside := by rwa [length_setAt (by rwa [Nat.zero_add, length_contents])]
  nonempty := by rwa [length_setAt (by rwa [Nat.zero_add, length_contents])]

/-- The first part of `push`: room for so many bytes behind `tail`. -/
def makeRoom (r : ByteRing) (more : ℕ) : ByteRing :=
  if r.buf.length < r.tail + more then
    if r.buf.length < r.length + more then
      let cap := grownCapacity r.buf.length (r.length + more) r.nonempty
      have hcap : r.length + more ≤ cap ∧ r.buf.length ≤ cap := le_grownCapacity _ _ _
      r.moved (List.replicate cap 0) (by rw [List.length_replicate]; omega)
        (by have := r.nonempty; rw [List.length_replicate]; omega)
    else
      -- `copyWithin(0, head, tail)`
      r.moved r.buf r.length_le r.nonempty
  else r

variable {r : ByteRing}

theorem contents_moved {buf : Bytes} (h : r.length ≤ buf.length) (hpos : 0 < buf.length) :
    (r.moved buf h hpos).contents = r.contents := by
  have htake : (setAt buf r.contents 0).take (0 + r.contents.length) = buf.take 0 ++ r.contents :=
    take_setAt (Nat.zero_le _)
  rwa [Nat.zero_add, length_contents, take_zero, nil_append] at htake

theorem makeRoom_spec (r : ByteRing) (more : ℕ) :
    (r.makeRoom more).tail + more ≤ (r.makeRoom more).buf.length ∧
      (r.makeRoom more).contents = r.contents := by
  rw [makeRoom]
  split_ifs with hover hgrow
  · refine ⟨?_, contents_moved _ _⟩
    have hcap := le_grownCapacity r.buf.length (r.length + more) r.nonempty
    rw [moved, length_setAt (by rw [Nat.zero_add, length_contents, length_replicate]; omega),
      length_replicate]
    exact hcap.1
  · refine ⟨?_, contents_moved _ _⟩
    rw [moved, length_setAt (by rw [Nat.zero_add, length_contents]; exact r.length_le)]
    exact Nat.le_of_not_lt hgrow
  · exact ⟨Nat.le_of_not_lt hover, rfl⟩

def push (r : ByteRing) (chunk : Bytes) : ByteRing :=
  let room := r.makeRoom chunk.length
  have hroom : room.tail + chunk.length ≤ room.buf.length := (r.makeRoom_spec _).1
  { buf := setAt room.buf chunk room.tail
    head := room.head
    tail := room.tail + chunk.length
    ordered := room.ordered.trans (Nat.le_add_right _ _)
    inside := by rwa [length_setAt hroom]
    nonempty := by rw [length_setAt hroom]; exact room.nonempty }

/-- A push puts its bytes behind the others, whatever it moves. -/
theorem contents_push (r : ByteRing) (chunk : Bytes) :
    (r.push chunk).contents = r.contents ++ chunk := by
  obtain ⟨hroom, hcontents⟩ := r.makeRoom_spec chunk.length
  rw [← hcontents]
  have hordered := (r.makeRoom chunk.length).ordered
  show ((setAt (r.makeRoom chunk.length).buf chunk (r.makeRoom chunk.length).tail).drop
    (r.makeRoom chunk.length).head).take
      ((r.makeRoom chunk.length).tail + chunk.length - (r.makeRoom chunk.length).head) = _
  rw [← drop_take, take_setAt (by omega), drop_append_of_le_length, contents, length,
    drop_take]
  rw [length_take]
  omega

/-- `skip`. -/
def skip (r : ByteRing) (n : ℕ) : Except RangeError ByteRing :=
  if h : r.length < n then .error ⟨s!"skip {n} > pending {r.length}"⟩
  else if r.head + n = r.tail then
    .ok { r with head := 0, tail := 0, ordered := Nat.le_refl 0, inside := Nat.zero_le _ }
  else
    .ok { r with head := r.head + n, ordered := by have := r.ordered; rw [length] at h; omega }

/-- `read`. -/
def read (r : ByteRing) (n : ℕ) : Except RangeError (Bytes × ByteRing) :=
  if r.length < n then .error ⟨s!"read {n} > pending {r.length}"⟩
  else (r.skip n).map fun r' ↦ ((r.buf.drop r.head).take n, r')

theorem skip_spec {n : ℕ} (h : n ≤ r.length) :
    ∃ r', r.skip n = .ok r' ∧ r'.contents = r.contents.drop n := by
  rw [skip, dif_neg (Nat.not_lt.mpr h)]
  split_ifs with hall
  · refine ⟨_, rfl, ?_⟩
    have hn : r.length = n := by
      rw [length]
      omega
    rw [drop_eq_nil_of_le (by rw [length_contents, hn])]
    exact take_zero
  · refine ⟨_, rfl, ?_⟩
    rw [contents, contents, drop_take, drop_drop]
    show (r.buf.drop (r.head + n)).take (r.tail - (r.head + n)) = _
    rw [length, Nat.sub_sub]

theorem read_spec {n : ℕ} (h : n ≤ r.length) :
    ∃ r', r.read n = .ok (r.contents.take n, r') ∧ r'.contents = r.contents.drop n := by
  obtain ⟨r', hskip, hcontents⟩ := skip_spec h
  refine ⟨r', ?_, hcontents⟩
  rw [read, if_neg (Nat.not_lt.mpr h), hskip, contents, take_take, Nat.min_eq_left h]
  rfl

/-! ## A queue of bytes -/

inductive RingOp where
  | push (chunk : Bytes)
  | read (n : ℕ)
  | skip (n : ℕ)

/-- What an operation returns, or throws, and what is pending then. -/
def perform (r : ByteRing) : RingOp → Except RangeError Bytes × ByteRing
  | .push chunk => (.ok [], r.push chunk)
  | .read n =>
    match r.read n with
    | .ok (out, r') => (.ok out, r')
    | .error err => (.error err, r)
  | .skip n =>
    match r.skip n with
    | .ok r' => (.ok [], r')
    | .error err => (.error err, r)

/-- The same of a queue. -/
def queueOp (q : Bytes) : RingOp → Except RangeError Bytes × Bytes
  | .push chunk => (.ok [], q ++ chunk)
  | .read n =>
    if q.length < n then (.error ⟨s!"read {n} > pending {q.length}"⟩, q)
    else (.ok (q.take n), q.drop n)
  | .skip n =>
    if q.length < n then (.error ⟨s!"skip {n} > pending {q.length}"⟩, q) else (.ok [], q.drop n)

theorem perform_eq (r : ByteRing) (op : RingOp) :
    (r.perform op).1 = (queueOp r.contents op).1 ∧
      (r.perform op).2.contents = (queueOp r.contents op).2 := by
  cases op with
  | push chunk => exact ⟨rfl, contents_push r chunk⟩
  | read n =>
    rw [perform, queueOp, length_contents]
    rcases Nat.lt_or_ge r.length n with hshort | hlong
    · rw [if_pos hshort, read, if_pos hshort]
      exact ⟨rfl, rfl⟩
    · obtain ⟨r', hread, hcontents⟩ := read_spec hlong
      rw [if_neg (Nat.not_lt.mpr hlong), hread]
      exact ⟨rfl, hcontents⟩
  | skip n =>
    rw [perform, queueOp, length_contents]
    rcases Nat.lt_or_ge r.length n with hshort | hlong
    · rw [if_pos hshort, skip, dif_pos hshort]
      exact ⟨rfl, rfl⟩
    · obtain ⟨r', hskip, hcontents⟩ := skip_spec hlong
      rw [if_neg (Nat.not_lt.mpr hlong), hskip]
      exact ⟨rfl, hcontents⟩

/-- What operations return one after the other. -/
def performAll (r : ByteRing) : List RingOp → List (Except RangeError Bytes)
  | [] => []
  | op :: ops => (r.perform op).1 :: (r.perform op).2.performAll ops

def queueAll (q : Bytes) : List RingOp → List (Except RangeError Bytes)
  | [] => []
  | op :: ops => (queueOp q op).1 :: queueAll (queueOp q op).2 ops

/-- Whatever it moves and however it grows, the ring is a queue. -/
theorem performAll_eq (r : ByteRing) (ops : List RingOp) :
    r.performAll ops = queueAll r.contents ops := by
  induction ops generalizing r with
  | nil => rfl
  | cons op ops ih =>
    obtain ⟨hanswer, hcontents⟩ := perform_eq r op
    rw [performAll, queueAll, hanswer, ih, hcontents]

@[simp] theorem contents_new (initialCapacity : ℕ) (h : 0 < initialCapacity) :
    (new initialCapacity h).contents = [] := rfl

end ByteRing

/-! ## Which array is written -/

/-- The ring among all arrays there are: the one it writes holds its bytes. -/
structure RingArrays where
  heap : List Bytes
  own : ℕ
  ring : ByteRing
  held : heap[own]? = some ring.buf

namespace RingArrays

open ByteRing (RingOp)

theorem own_lt (s : RingArrays) : s.own < s.heap.length :=
  (List.getElem?_eq_some_iff.mp s.held).1

theorem buf_skip {r r' : ByteRing} {n : ℕ} (h : r.skip n = .ok r') : r'.buf = r.buf := by
  rw [ByteRing.skip] at h
  split_ifs at h
  · cases h
    rfl
  · cases h
    rfl

theorem buf_read {r r' : ByteRing} {n : ℕ} {out : Bytes} (h : r.read n = .ok (out, r')) :
    r'.buf = r.buf := by
  rw [ByteRing.read] at h
  split_ifs at h
  rcases hskip : r.skip n with err | r''
  · rw [hskip] at h
    exact absurd h (by simp [Except.map])
  · rw [hskip] at h
    cases h
    exact buf_skip hskip

/-- An operation.  A push writes the ring's own array, or one it has made to take its place; a read
makes an array for what it returns, and here is which. -/
def perform (s : RingArrays) : RingOp → Option ℕ × RingArrays
  | .push chunk =>
    if s.ring.buf.length < s.ring.length + chunk.length then
      (none, ⟨s.heap ++ [(s.ring.push chunk).buf], s.heap.length, s.ring.push chunk, by simp⟩)
    else
      (none, ⟨s.heap.set s.own (s.ring.push chunk).buf, s.own, s.ring.push chunk,
        List.getElem?_set_self s.own_lt⟩)
  | .read n =>
    match h : s.ring.read n with
    | .ok (out, ring) =>
      (some s.heap.length, ⟨s.heap ++ [out], s.own, ring, by
        rw [List.getElem?_append_left s.own_lt, s.held, buf_read h]⟩)
    | .error _ => (none, s)
  | .skip n =>
    match h : s.ring.skip n with
    | .ok ring => (none, ⟨s.heap, s.own, ring, by rw [s.held, buf_skip h]⟩)
    | .error _ => (none, s)

/-- The arrays after some operations. -/
def performAll (s : RingArrays) (ops : List RingOp) : RingArrays :=
  ops.foldl (fun s op ↦ (s.perform op).2) s

/-- An array that is not the ring's is not written, and does not become the ring's. -/
theorem perform_keeps (s : RingArrays) (op : RingOp) {a : ℕ} (hother : a ≠ s.own)
    (hlt : a < s.heap.length) :
    a ≠ (s.perform op).2.own ∧ a < (s.perform op).2.heap.length ∧
      (s.perform op).2.heap[a]? = s.heap[a]? := by
  cases op with
  | push chunk =>
    rw [perform]
    split_ifs with hgrow
    · refine ⟨hlt.ne, ?_, getElem?_append_left hlt⟩
      rw [length_append]
      omega
    · refine ⟨hother, ?_, getElem?_set_ne hother.symm⟩
      rwa [length_set]
  | read n =>
    rw [perform]
    split
    · refine ⟨hother, ?_, getElem?_append_left hlt⟩
      rw [length_append]
      omega
    · exact ⟨hother, hlt, rfl⟩
  | skip n =>
    rw [perform]
    split
    · exact ⟨hother, hlt, rfl⟩
    · exact ⟨hother, hlt, rfl⟩

theorem performAll_keeps (ops : List RingOp) :
    ∀ {s : RingArrays} {a : ℕ}, a ≠ s.own → a < s.heap.length →
      (s.performAll ops).heap[a]? = s.heap[a]? := by
  induction ops with
  | nil => exact fun {s a} _ _ ↦ rfl
  | cons op ops ih =>
    intro s a hother hlt
    obtain ⟨hother', hlt', hheap⟩ := s.perform_keeps op hother hlt
    exact (ih hother' hlt').trans hheap

/-- What a read has returned is still there after any further operations. -/
theorem read_unaffected (s : RingArrays) {n : ℕ} {out : Bytes} {ring : ByteRing}
    (h : s.ring.read n = .ok (out, ring)) :
    ∃ a, (s.perform (.read n)).1 = some a ∧
      ∀ ops, ((s.perform (.read n)).2.performAll ops).heap[a]? = some out := by
  have held : (s.heap ++ [out])[s.own]? = some ring.buf := by
    rw [getElem?_append_left s.own_lt, s.held, buf_read h]
  have hperform : s.perform (.read n) =
      (some s.heap.length, ⟨s.heap ++ [out], s.own, ring, held⟩) := by
    rw [perform]
    split
    next out' ring' h' =>
      cases h'.symm.trans h
      rfl
    next err h' => exact absurd (h'.symm.trans h) (by simp)
  refine ⟨s.heap.length, by rw [hperform], fun ops ↦ ?_⟩
  have hlt : s.heap.length < (s.heap ++ [out]).length := by
    rw [length_append]
    exact Nat.lt_succ_self _
  have hkept : ((⟨s.heap ++ [out], s.own, ring, held⟩ : RingArrays).performAll ops).heap[s.heap.length]? =
      (s.heap ++ [out])[s.heap.length]? := performAll_keeps ops s.own_lt.ne' hlt
  rw [hperform, hkept]
  exact getElem?_concat_length

end RingArrays

end Enkaku.Scrcpy
