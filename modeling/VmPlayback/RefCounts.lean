import VmPlayback.SharedBuffers
import VmPlayback.Runs

namespace VmPlayback

open Handles Sharing

namespace Storage

def counts (s : Storage) (p : ℕ) : ℕ := (s.refbufs p).refcount.toNat

end Storage

namespace Refbuf

theorem setRefcount_content (p : ℕ) (n : UInt32) (s : Storage) (q : ℕ) :
    (setRefcount p n s q).content = (s.refbufs q).content := by
  rw [setRefcount, Function.update_apply]
  split_ifs with hq
  · rw [hq]
  · rfl

theorem setRefcount_refcount (p : ℕ) (n : UInt32) (s : Storage) :
    (fun q => (setRefcount p n s q).refcount.toNat) = Function.update s.counts p n.toNat := by
  funext q
  rw [setRefcount, Function.update_apply, Function.update_apply]
  split_ifs <;> rfl

@[simp] theorem inc_content (p : ℕ) (s : Storage) (q : ℕ) :
    ((inc p s).refbufs q).content = (s.refbufs q).content := setRefcount_content p _ s q

@[simp] theorem dec_content (p : ℕ) (s : Storage) (q : ℕ) :
    ((dec p s).refbufs q).content = (s.refbufs q).content := by
  rw [dec]
  split_ifs <;> exact setRefcount_content p _ s q

@[simp] theorem dec_nextRefbuf (p : ℕ) (s : Storage) : (dec p s).nextRefbuf = s.nextRefbuf := by
  rw [dec]
  split_ifs <;> rfl

theorem inc_counts {p : ℕ} {s : Storage} (h : s.counts p + 1 < 2 ^ 32) :
    (inc p s).counts = Function.update s.counts p (s.counts p + 1) := by
  have hadd : ((s.refbufs p).refcount + 1).toNat = s.counts p + 1 := by
    rw [UInt32.toNat_add]
    exact Nat.mod_eq_of_lt h
  rw [← hadd]
  exact setRefcount_refcount p _ s

theorem dec_counts {p : ℕ} {s : Storage} (h : 0 < s.counts p) :
    (dec p s).counts = Function.update s.counts p (s.counts p - 1) := by
  have hsub : ((s.refbufs p).refcount - 1).toNat = s.counts p - 1 :=
    UInt32.toNat_sub_of_le _ _ (UInt32.le_iff_toNat_le.mpr h)
  rw [← hsub, dec]
  split_ifs <;> exact setRefcount_refcount p _ s

theorem new_counts (buf : ℕ) (s : Storage) :
    (new buf s).2.counts = Function.update s.counts s.nextRefbuf 1 := by
  funext p
  simp only [Storage.counts, new, Function.update_apply]
  split_ifs <;> rfl

theorem new_content (buf : ℕ) {s : Storage} {p : ℕ} (hp : p < s.nextRefbuf) :
    ((new buf s).2.refbufs p).content = (s.refbufs p).content := by
  simp [new, Function.update_of_ne (Nat.ne_of_lt hp)]

theorem refcount_sub_eq_zero_iff (p : ℕ) (s : Storage) :
    (s.refbufs p).refcount - 1 = 0 ↔ s.counts p = 1 := by
  rw [UInt32.sub_eq_iff_eq_add, UInt32.zero_add, ← UInt32.toNat_inj]
  rfl

/-- With other referrers left, a `Refbuf` stays. -/
theorem dec_calls_of_ne {p : ℕ} {s : Storage} (h : s.counts p ≠ 1) :
    (dec p s).calls = .use .dec p :: s.calls ∧ (dec p s).heap = s.heap := by
  rw [dec, if_neg (mt (refcount_sub_eq_zero_iff p s).mp h)]
  exact ⟨rfl, rfl⟩

theorem dec_calls_of_eq {p : ℕ} {s : Storage} (h : s.counts p = 1) :
    (dec p s).calls = .release p :: .use .dec p :: s.calls ∧
      (dec p s).heap = s.heap.free (s.refbufs p).content := by
  rw [dec, if_pos ((refcount_sub_eq_zero_iff p s).mpr h)]
  exact ⟨rfl, by rw [delete, setRefcount_content]⟩

theorem dec_freed_subset (p : ℕ) (s : Storage) : s.heap.freed ⊆ (dec p s).heap.freed := by
  by_cases h : s.counts p = 1
  · rw [(dec_calls_of_eq h).2]
    exact List.subset_cons_self _ _
  · rw [(dec_calls_of_ne h).2]
    exact List.Subset.refl _

theorem acquire_mem_dec {p q : ℕ} {s : Storage} :
    .acquire q ∈ (dec p s).calls ↔ .acquire q ∈ s.calls := by
  by_cases h : s.counts p = 1
  · simp [(dec_calls_of_eq h).1]
  · simp [(dec_calls_of_ne h).1]

theorem release_mem_dec {p q : ℕ} {s : Storage} :
    .release q ∈ (dec p s).calls ↔ .release q ∈ s.calls ∨ (q = p ∧ s.counts p = 1) := by
  by_cases h : s.counts p = 1
  · simp [(dec_calls_of_eq h).1, h, or_comm]
  · simp [(dec_calls_of_ne h).1, h]

theorem release_mem_inc {p q : ℕ} {s : Storage} :
    .release q ∈ (inc p s).calls ↔ .release q ∈ s.calls := by
  simp [inc]

end Refbuf

namespace MessageBuilder

/-- A builder goes on with the buffer it has, or deletes it for a new one. -/
def Rebuffers (b b' : MessageBuilder) : Prop :=
  (b'.content = b.content ∧ b'.heap.next = b.heap.next ∧ b'.heap.freed = b.heap.freed) ∨
    (b'.content = b.heap.next ∧ b'.heap.next = b.heap.next + 1 ∧
      b'.heap.freed = b.content :: b.heap.freed)

theorem Rebuffers.freed_subset {b b' : MessageBuilder} (h : Rebuffers b b') :
    b.heap.freed ⊆ b'.heap.freed := by
  rcases h with ⟨-, -, hfreed⟩ | ⟨-, -, hfreed⟩
  · rw [hfreed]
    exact List.Subset.refl _
  · rw [hfreed]
    exact List.subset_cons_self _ _

theorem reserve_rebuffers (b : MessageBuilder) (n : UInt32) : Rebuffers b (b.reserve n) := by
  rw [reserve]
  split
  · exact Or.inr ⟨rfl, rfl, rfl⟩
  · exact Or.inl ⟨rfl, rfl, rfl⟩

theorem puts_rebuffers (chunks : List (List UInt8)) {b b' : MessageBuilder}
    (h : Rebuffers b b') : Rebuffers b (puts chunks b') := by
  induction chunks generalizing b' with
  | nil => exact h
  | cons bs chunks ih =>
    have hput : Rebuffers b (b'.put bs) := h
    exact ih hput

theorem write_rebuffers (o : ByteOrder) (f : Field) (b : MessageBuilder) :
    Rebuffers b (f.write o b) := by
  rw [write_eq]
  exact puts_rebuffers _ (reserve_rebuffers b _)

end MessageBuilder

inductive Owner where
  | refbuf (p : ℕ)
  | builder (name : ℕ)
  deriving DecidableEq

namespace Object

def Cached (s : Storage) : Object → Prop
  | message _ => True
  | reader r => r.content = (s.refbufs r.message.content).content

theorem Cached.of_content {s s' : Storage} {x : Object} (h : x.Cached s)
    (hc : (s'.refbufs x.refbuf).content = (s.refbufs x.refbuf).content) : x.Cached s' := by
  cases x with
  | message m => trivial
  | reader r => exact Eq.trans h hc.symm

/-- The content pointers a program can get from an object: through its message, and the
one a reader keeps. -/
def pointers (s : Storage) : Object → List ℕ
  | message m => [(s.refbufs m.content).content]
  | reader r => [(s.refbufs r.message.content).content, r.content]

end Object

namespace Objects

/-- A `Refbuf` that is not deleted has its content, a builder the buffer it writes to. -/
def own (w : Objects) : Owner → Option ℕ
  | .refbuf p => if p ∈ held w.storage.calls then some (w.storage.refbufs p).content else none
  | .builder name => (w.builder? name).map MessageBuilder.content

structure Sound (w : Objects) : Prop where
  exact : Exact w.referrers w.storage.counts w.storage.calls
  acquired : ∀ p, .acquire p ∈ w.storage.calls → p < w.storage.nextRefbuf
  owned : Owned w.own w.storage.heap.next w.storage.heap.freed
  freed : ∀ p, .release p ∈ w.storage.calls → (w.storage.refbufs p).content ∈ w.storage.heap.freed
  cached : ∀ x, some x ∈ w.objects → x.Cached w.storage

theorem start_sound (mem : ℕ → Mem) (refbufs : ℕ → Refbuf) : Sound (start mem refbufs) where
  exact := Exact.none_referred
  acquired _ h := by cases h
  owned := by
    have hown : (start mem refbufs).own = fun _ => none := by
      funext i
      cases i <;> rfl
    rw [hown]
    exact Owned.none_owned
  freed _ h := by cases h
  cached _ h := by cases h

variable {w : Objects}

theorem getElem?_of_object? {name : ℕ} {x : Object} (h : w.object? name = some x) :
    w.objects[name]? = some (some x) := Option.join_eq_some_iff.mp h

theorem mem_of_object? {name : ℕ} {x : Object} (h : w.object? name = some x) :
    some x ∈ w.objects := List.mem_of_getElem? (getElem?_of_object? h)

theorem object?_of_message? {name : ℕ} {m : SharedMessage} (h : w.message? name = some m) :
    w.object? name = some (.message m) := by
  rw [message?] at h
  split at h
  · next hm =>
    cases h
    exact hm
  · cases h

theorem object?_of_reader? {name : ℕ} {r : SharedReader} (h : w.reader? name = some r) :
    w.object? name = some (.reader r) := by
  rw [reader?] at h
  split at h
  · next hr =>
    cases h
    exact hr
  · cases h

theorem referrers_pos {x : Object} (hx : some x ∈ w.objects) : 0 < w.referrers x.refbuf :=
  referrers_pos_iff.mpr (List.mem_map.mpr ⟨some x, hx, rfl⟩)

theorem referrers_le_live (w : Objects) (p : ℕ) : w.referrers p ≤ w.live := by
  have h := referrers_le w.refs p
  simp only [refs, List.countP_map, Function.comp_def, Option.isSome_map] at h
  exact h

theorem referrers_of_push (w : Objects) (x : Object) (s : Storage) :
    (w.push x s).referrers =
      Function.update w.referrers x.refbuf (w.referrers x.refbuf + 1) := by
  have hrefs : (w.push x s).refs = w.refs ++ [some x.refbuf] := by simp [refs, push]
  funext p
  rw [referrers, hrefs, referrers_push]
  rfl

theorem referrers_of_clear {i : ℕ} {x : Object} (hi : w.objects[i]? = some (some x))
    (s : Storage) : (w.put i none s).referrers =
      Function.update w.referrers x.refbuf (w.referrers x.refbuf - 1) := by
  have hrefs : (w.put i none s).refs = w.refs.set i none := by simp [refs, put, List.map_set]
  funext p
  rw [referrers, hrefs, referrers_clear (b := x.refbuf) (by simp [refs, hi])]
  rfl

theorem referrers_of_fill {i : ℕ} (hi : w.objects[i]? = some none) (x : Object) (s : Storage) :
    (w.put i (some x) s).referrers =
      Function.update w.referrers x.refbuf (w.referrers x.refbuf + 1) := by
  have hrefs : (w.put i (some x) s).refs = w.refs.set i (some x.refbuf) := by
    simp [refs, put, List.map_set]
  funext p
  rw [referrers, hrefs, referrers_fill (by simp [refs, hi])]
  rfl

theorem newMessage_eq (w : Objects) (header : Int32) (length : UInt32) (buf : ℕ) :
    w.newMessage header length buf =
      w.push (.message ⟨header, length, w.storage.nextRefbuf⟩) (Refbuf.new buf w.storage).2 := rfl

theorem own_of_set {name : ℕ} {b : MessageBuilder} (hb : w.builder? name = some b) (heap : Heap)
    (b' : Option MessageBuilder) :
    (w.onHeap heap (w.builders.set name b')).own =
      Function.update w.own (.builder name) (b'.map MessageBuilder.content) := by
  have hlt : name < w.builders.length :=
    (List.getElem?_eq_some_iff.mp (Option.join_eq_some_iff.mp hb)).1
  funext i
  cases i with
  | refbuf p => rfl
  | builder j =>
    by_cases hj : j = name
    · simp [own, onHeap, builder?, hj, hlt]
    · simp [own, onHeap, builder?, Function.update_of_ne, hj, Ne.symm hj]

theorem own_of_append (heap : Heap) (b : MessageBuilder) :
    (w.onHeap heap (w.builders ++ [some b])).own =
      Function.update w.own (.builder w.builders.length) (some b.content) := by
  funext i
  cases i with
  | refbuf p => rfl
  | builder j =>
    simp only [own, onHeap, builder?, Function.update_apply, Owner.builder.injEq]
    rcases Nat.lt_trichotomy j w.builders.length with hj | rfl | hj
    · rw [List.getElem?_append_left hj, if_neg (Nat.ne_of_lt hj)]
    · simp
    · rw [List.getElem?_eq_none (by simpa using hj), if_neg (Nat.ne_of_gt hj),
        List.getElem?_eq_none (Nat.le_of_lt hj)]

/-- A call that deletes nothing leaves everything in the hands it is in. -/
theorem own_of_held {w' : Objects} (hheld : held w'.storage.calls = held w.storage.calls)
    (hcontent : ∀ p, (w'.storage.refbufs p).content = (w.storage.refbufs p).content)
    (hbuilders : w'.builders = w.builders) : w'.own = w.own := by
  funext i
  cases i with
  | builder name => rw [own, own, builder?, builder?, hbuilders]
  | refbuf p => rw [own, own, hheld, hcontent]

theorem own_of_delete {w' : Objects} {p : ℕ}
    (hheld : ∀ q, q ∈ held w'.storage.calls ↔ q ∈ held w.storage.calls ∧ q ≠ p)
    (hcontent : ∀ p, (w'.storage.refbufs p).content = (w.storage.refbufs p).content)
    (hbuilders : w'.builders = w.builders) :
    w'.own = Function.update w.own (.refbuf p) none := by
  funext i
  cases i with
  | builder name =>
    rw [Function.update_of_ne (by simp), own, own, builder?, builder?, hbuilders]
  | refbuf q =>
    by_cases hq : q = p
    · simp [own, hheld, hq]
    · simp [own, hheld, hcontent, hq, Function.update_of_ne]

theorem own_builder {name : ℕ} {b : MessageBuilder} (hb : w.builder? name = some b) :
    w.own (.builder name) = some b.content := by
  rw [own, hb, Option.map_some]

namespace Sound

theorem mem_held (h : Sound w) {x : Object} (hx : some x ∈ w.objects) :
    x.refbuf ∈ held w.storage.calls := h.exact.mem_held (referrers_pos hx)

theorem lt_of_held (h : Sound w) {p : ℕ} (hp : p ∈ held w.storage.calls) :
    p < w.storage.nextRefbuf := h.acquired p (acquire_mem_of_held hp)

theorem lt_of_released (h : Sound w) {p : ℕ} (hp : .release p ∈ w.storage.calls) :
    p < w.storage.nextRefbuf := h.acquired p (h.exact.disciplined.acquire_mem_of_released hp)

theorem onHeap (h : Sound w) (heap : Heap) (builders : List (Option MessageBuilder))
    (howned : Owned (w.onHeap heap builders).own heap.next heap.freed)
    (hfreed : w.storage.heap.freed ⊆ heap.freed) : Sound (w.onHeap heap builders) where
  exact := h.exact
  acquired := h.acquired
  owned := howned
  freed p hp := hfreed (h.freed p hp)
  cached := h.cached

theorem newBuilder (h : Sound w) (header : Int32) (initCap : UInt32) :
    Sound (w.onHeap (MessageBuilder.new w.storage.heap header initCap).heap
      (w.builders ++ [some (.new w.storage.heap header initCap)])) := by
  refine h.onHeap _ _ ?_ (List.Subset.refl _)
  rw [own_of_append]
  exact h.owned.acquire _

theorem destroyBuilder (h : Sound w) {name : ℕ} {b : MessageBuilder}
    (hb : w.builder? name = some b) :
    Sound (w.onHeap (w.storage.heap.free b.content) (w.builders.set name none)) := by
  refine h.onHeap _ _ ?_ (List.subset_cons_self _ _)
  rw [own_of_set hb]
  exact h.owned.release (own_builder hb)

theorem rebuffer (h : Sound w) {name : ℕ} {b b' : MessageBuilder} (hb : w.builder? name = some b)
    (hr : MessageBuilder.Rebuffers { b with heap := w.storage.heap } b') :
    Sound (w.onHeap b'.heap (w.builders.set name (some b'))) := by
  refine h.onHeap _ _ ?_ hr.freed_subset
  rw [own_of_set hb, Option.map_some]
  rcases hr with ⟨hcontent, hnext, hfreed⟩ | ⟨hcontent, hnext, hfreed⟩
  · rw [hcontent, hnext, hfreed, ← own_builder hb, Function.update_eq_self]
    exact h.owned
  · rw [hcontent, hnext, hfreed]
    have hrenew := h.owned.renew (own_builder hb)
    exact hrenew

theorem not_acquired (h : Sound w) : .acquire w.storage.nextRefbuf ∉ w.storage.calls :=
  fun hm => Nat.lt_irrefl _ (h.acquired _ hm)

theorem not_held (h : Sound w) : w.storage.nextRefbuf ∉ held w.storage.calls :=
  fun hm => Nat.lt_irrefl _ (h.lt_of_held hm)

theorem newMessage (h : Sound w) {buf : ℕ} (hnone : ∀ i, w.own i ≠ some buf)
    (hbuf : buf < w.storage.heap.next ∧ buf ∉ w.storage.heap.freed) (header : Int32)
    (length : UInt32) : Sound (w.newMessage header length buf) where
  exact := by
    have hzero : w.referrers w.storage.nextRefbuf = 0 := by
      by_contra hne
      exact h.not_held (h.exact.mem_held (Nat.pos_of_ne_zero hne))
    have hexact := h.exact.acquire h.not_acquired
    rw [newMessage_eq, referrers_of_push, Object.refbuf, hzero]
    rw [← Refbuf.new_counts buf] at hexact
    exact hexact
  acquired p hp := by
    rcases List.mem_cons.mp hp with hp | hp
    · cases hp
      exact Nat.lt_succ_self _
    · exact Nat.lt_succ_of_lt (h.acquired p hp)
  owned := by
    have hown : (w.newMessage header length buf).own =
        Function.update w.own (.refbuf w.storage.nextRefbuf) (some buf) := by
      funext i
      cases i with
      | builder name => rfl
      | refbuf p =>
        by_cases hp : p = w.storage.nextRefbuf
        · simp [own, newMessage_eq, push, Refbuf.new, hp]
        · simp [own, newMessage_eq, push, Refbuf.new, Function.update_of_ne, hp]
    rw [hown]
    exact h.owned.take _ (fun i _ => hnone i) hbuf
  freed p hp := by
    have hold : .release p ∈ w.storage.calls := by
      simpa [newMessage_eq, push, Refbuf.new] using hp
    rw [newMessage_eq, push, Refbuf.new_content buf (h.lt_of_released hold)]
    exact h.freed p hold
  cached x hx := by
    rcases List.mem_append.mp hx with hx | hx
    · exact (h.cached x hx).of_content (Refbuf.new_content buf (h.lt_of_held (h.mem_held hx)))
    · cases List.mem_singleton.mp hx
      trivial

/-- A new buffer is no one's until the message has it. -/
theorem receive (h : Sound w) (m : Message) : Sound (w.receive m) := by
  let heap := w.storage.heap
  let filled := { heap.alloc with mem := Function.update heap.mem heap.next m.content }
  have hleak := h.onHeap filled w.builders h.owned.leak (List.Subset.refl _)
  refine hleak.newMessage ?_ ⟨Nat.lt_succ_self _, ?_⟩ m.header m.length
  · intro i hi
    exact Nat.lt_irrefl _ (h.owned.live i _ hi).1
  · intro hf
    exact Nat.lt_irrefl _ (h.owned.freed_lt _ hf)

/-- The builder has a new buffer before the message takes the old one. -/
theorem toMessage (h : Sound w) {name : ℕ} {b : MessageBuilder} (hb : w.builder? name = some b)
    (o : ByteOrder) : Sound (w.build o name b .toMessage) := by
  let b' := (MessageBuilder.toMessage { b with heap := w.storage.heap }).2
  have hown : (w.onHeap b'.heap (w.builders.set name (some b'))).own =
      Function.update w.own (.builder name) (some w.storage.heap.next) := own_of_set hb _ _
  have hlive := h.owned.live _ _ (own_builder hb)
  have hbuilder : Sound (w.onHeap b'.heap (w.builders.set name (some b'))) := by
    refine h.onHeap _ _ ?_ (List.Subset.refl _)
    rw [hown]
    exact h.owned.acquire _
  refine hbuilder.newMessage ?_ ⟨Nat.lt_succ_of_lt hlive.1, hlive.2⟩ b.header b.size
  intro i hi
  rw [hown, Function.update_apply] at hi
  split_ifs at hi with hname
  · exact Nat.ne_of_gt hlive.1 (Option.some.inj hi)
  · exact hname (h.owned.unique _ _ _ hi (own_builder hb))

theorem build (h : Sound w) {name : ℕ} {b : MessageBuilder} (hb : w.builder? name = some b)
    (o : ByteOrder) (op : BuilderOp) : Sound (w.build o name b op) := by
  cases op with
  | write f => exact h.rebuffer hb (MessageBuilder.write_rebuffers o f _)
  | reserve size => exact h.rebuffer hb (MessageBuilder.reserve_rebuffers _ size)
  | setHeader header => exact h.rebuffer hb (Or.inl ⟨rfl, rfl, rfl⟩)
  | toMessage => exact h.toMessage hb o

theorem count_eq (h : Sound w) {p : ℕ} (hp : 0 < w.referrers p) :
    w.storage.counts p = w.referrers p := h.exact.count_eq p hp

theorem own_refbuf (h : Sound w) {p : ℕ} (hp : 0 < w.referrers p) :
    w.own (.refbuf p) = some (w.storage.refbufs p).content := by
  rw [own, if_pos (h.exact.mem_held hp)]

/-- One more object refers to a `Refbuf` that has referrers. -/
theorem inc (h : Sound w) {x : Object} (hx : 0 < w.referrers x.refbuf)
    (hcached : x.Cached w.storage) (objects : List (Option Object))
    (hrefs : referrers ⟨Refbuf.inc x.refbuf w.storage, objects, w.builders⟩ =
      Function.update w.referrers x.refbuf (w.referrers x.refbuf + 1))
    (hmem : ∀ y, some y ∈ objects → some y ∈ w.objects ∨ y = x)
    (hlive : objects.countP Option.isSome < 2 ^ 32) :
    Sound ⟨Refbuf.inc x.refbuf w.storage, objects, w.builders⟩ where
  exact := by
    have hcount := h.count_eq hx
    -- the references after the step are among the live objects
    have hlt : w.storage.counts x.refbuf + 1 < 2 ^ 32 := by
      have hle := referrers_le_live ⟨Refbuf.inc x.refbuf w.storage, objects, w.builders⟩ x.refbuf
      rw [hrefs, Function.update_self, ← hcount] at hle
      exact Nat.lt_of_le_of_lt hle hlive
    have hexact := h.exact.recount .inc hx (Nat.succ_pos (w.referrers x.refbuf))
    rw [hrefs, Refbuf.inc_counts hlt, hcount]
    exact hexact
  acquired p hp := h.acquired p (by simpa [Refbuf.inc] using hp)
  owned := by
    have hown : own ⟨Refbuf.inc x.refbuf w.storage, objects, w.builders⟩ = w.own :=
      own_of_held rfl (Refbuf.inc_content _ _) rfl
    rw [hown]
    exact h.owned
  freed p hp := by
    rw [Refbuf.inc_content]
    exact h.freed p (by simpa [Refbuf.inc] using hp)
  cached y hy := by
    rcases hmem y hy with hy | rfl
    · exact (h.cached y hy).of_content (Refbuf.inc_content _ _ _)
    · exact hcached.of_content (Refbuf.inc_content _ _ _)

theorem getContentPtr (h : Sound w) {p : ℕ} (hp : 0 < w.referrers p) :
    Sound { w with storage := (Refbuf.getContentPtr p w.storage).2 } where
  exact := h.exact.use .getContentPtr hp
  acquired q hq := h.acquired q (by simpa [Refbuf.getContentPtr] using hq)
  owned := h.owned
  freed q hq := h.freed q (by simpa [Refbuf.getContentPtr] using hq)
  cached := h.cached

/-- An object gives up its reference, and the last one takes the buffer with it. -/
theorem dec (h : Sound w) {i : ℕ} {x : Object} (hi : w.objects[i]? = some (some x)) :
    Sound (w.put i none (Refbuf.dec x.refbuf w.storage)) := by
  have hx := referrers_pos (List.mem_of_getElem? hi)
  have hcount := h.count_eq hx
  refine ⟨?_, ?_, ?_, ?_, ?_⟩
  · rw [referrers_of_clear hi, put, Refbuf.dec_counts (hcount ▸ hx), hcount]
    by_cases hone : w.storage.counts x.refbuf = 1
    · have hexact := h.exact.release .dec hx 0
      rw [(Refbuf.dec_calls_of_eq hone).1, ← hcount, hone]
      exact hexact
    · rw [(Refbuf.dec_calls_of_ne hone).1]
      exact h.exact.recount .dec hx (by omega)
  · intro p hp
    rw [put, Refbuf.dec_nextRefbuf]
    exact h.acquired p (Refbuf.acquire_mem_dec.mp hp)
  · by_cases hone : w.storage.counts x.refbuf = 1
    · obtain ⟨hcalls, hheap⟩ := Refbuf.dec_calls_of_eq hone
      have hown : (w.put i none (Refbuf.dec x.refbuf w.storage)).own =
          Function.update w.own (.refbuf x.refbuf) none :=
        own_of_delete (by simp [put, hcalls]) (Refbuf.dec_content _ _) rfl
      have hreleased := h.owned.release (h.own_refbuf hx)
      rw [hown, put, hheap]
      exact hreleased
    · obtain ⟨hcalls, hheap⟩ := Refbuf.dec_calls_of_ne hone
      have hown : (w.put i none (Refbuf.dec x.refbuf w.storage)).own = w.own :=
        own_of_held (by simp [put, hcalls]) (Refbuf.dec_content _ _) rfl
      rw [hown, put, hheap]
      exact h.owned
  · intro p hp
    rw [put, Refbuf.dec_content]
    rcases Refbuf.release_mem_dec.mp hp with hp | ⟨rfl, hone⟩
    · exact Refbuf.dec_freed_subset _ _ (h.freed p hp)
    · rw [(Refbuf.dec_calls_of_eq hone).2]
      exact List.mem_cons_self
  · intro y hy
    rcases List.mem_or_eq_of_mem_set hy with hy | hy
    · exact (h.cached y hy).of_content (Refbuf.dec_content _ _ _)
    · cases hy

/-- A new object shares the `Refbuf` of one that is there. -/
theorem share (h : Sound w) {x y : Object} (hy : some y ∈ w.objects) (hxy : x.refbuf = y.refbuf)
    (hcached : x.Cached w.storage)
    (hlive : (w.push x (Refbuf.inc x.refbuf w.storage)).live < 2 ^ 32) :
    Sound (w.push x (Refbuf.inc x.refbuf w.storage)) := by
  refine h.inc (hxy ▸ referrers_pos hy) hcached _ (referrers_of_push w x _) ?_ hlive
  intro z hz
  rcases List.mem_append.mp hz with hz | hz
  · exact Or.inl hz
  · exact Or.inr (Option.some.inj (List.mem_singleton.mp hz))

/-- An object lets go of its `Refbuf` and takes that of another.  The other still has it
in between, so it is there to be taken even when it is the same one. -/
theorem reassign (h : Sound w) {dst src : ℕ} {x y z : Object} (hne : dst ≠ src)
    (hdst : w.object? dst = some x) (hsrc : w.object? src = some y) (hzy : z.refbuf = y.refbuf)
    (hcached : z.Cached w.storage)
    (hlive : (w.put dst (some z)
      (Refbuf.inc z.refbuf (Refbuf.dec x.refbuf w.storage))).live < 2 ^ 32) :
    Sound (w.put dst (some z) (Refbuf.inc z.refbuf (Refbuf.dec x.refbuf w.storage))) := by
  have hdec := h.dec (getElem?_of_object? hdst)
  have hy : some y ∈ w.objects.set dst none := by
    apply List.mem_of_getElem? (i := src)
    rw [List.getElem?_set_ne hne]
    exact getElem?_of_object? hsrc
  have hempty : (w.objects.set dst none)[dst]? = some none := by
    have hlt := (List.getElem?_eq_some_iff.mp (getElem?_of_object? hdst)).1
    simp [hlt]
  have hset : (w.objects.set dst none).set dst (some z) = w.objects.set dst (some z) :=
    List.set_set _
  have hinc := hdec.inc (x := z) (hzy ▸ referrers_pos hy)
    (hcached.of_content (Refbuf.dec_content _ _ _)) (w.objects.set dst (some z)) ?_ ?_ hlive
  · exact hinc
  · have hfill := referrers_of_fill (w := w.put dst none (Refbuf.dec x.refbuf w.storage)) hempty z
      (Refbuf.inc z.refbuf (Refbuf.dec x.refbuf w.storage))
    simp only [put, hset] at hfill
    exact hfill
  · intro v hv
    rw [← hset] at hv
    rcases List.mem_or_eq_of_mem_set hv with hv | hv
    · exact Or.inl hv
    · exact Or.inr (Option.some.inj hv)

end Sound

theorem destroy_eq (x : Object) (s : Storage) : x.destroy s = Refbuf.dec x.refbuf s := by
  cases x <;> rfl

/-- Every operation keeps the invariant, as long as the objects it leaves can be counted. -/
theorem step_sound (o : ByteOrder) (h : Sound w) (op : ObjectOp)
    (hlive : (w.step o op).live < 2 ^ 32) : Sound (w.step o op) := by
  cases op with
  | construct m => exact h.receive m
  | readMessage received =>
    cases received with
    | some m => exact h.receive m
    | none => exact h.onHeap _ _ h.owned.leak (List.Subset.refl _)
  | newBuilder header initCap => exact h.newBuilder header initCap
  | build name op =>
    rw [step]
    split
    · next b hb => exact h.build hb o op
    · exact h
  | destroyBuilder name =>
    rw [step]
    split
    · next b hb => exact h.destroyBuilder hb
    · exact h
  | copy src =>
    rw [step] at hlive ⊢
    split at hlive
    · next other hother =>
      have hy := mem_of_object? (object?_of_message? hother)
      exact h.share hy rfl trivial hlive
    · exact h
  | assign dst src =>
    rw [step] at hlive ⊢
    by_cases hne : dst = src
    · rw [if_pos hne]
      exact h
    · rw [if_neg hne] at hlive ⊢
      split at hlive
      · next this other hthis hother =>
        exact h.reassign (x := .message this)
          (z := .message ⟨other.header, other.length, other.content⟩) hne
          (object?_of_message? hthis) (object?_of_message? hother) rfl trivial hlive
      · exact h
  | getContentPtr src =>
    rw [step]
    split
    · next m hm =>
      have hx := mem_of_object? (object?_of_message? hm)
      exact h.getContentPtr (referrers_pos hx)
    · exact h
  | newReader src =>
    rw [step] at hlive ⊢
    split at hlive
    · next mess hmess =>
      have hy := mem_of_object? (object?_of_message? hmess)
      have hcontent := Refbuf.inc_content mess.content w.storage mess.content
      let x := Object.reader (SharedReader.new mess w.storage).1
      have hshare := h.share (x := x) hy rfl hcontent hlive
      have hx : some x ∈ (w.push x (Refbuf.inc x.refbuf w.storage)).objects :=
        List.mem_append_right _ (List.mem_singleton_self _)
      exact hshare.getContentPtr (referrers_pos hx)
    · exact h
  | copyReader src =>
    rw [step] at hlive ⊢
    split at hlive
    · next other hother =>
      have hy := mem_of_object? (object?_of_reader? hother)
      have hcached := h.cached _ hy
      exact h.share hy rfl hcached hlive
    · exact h
  | assignReader dst src =>
    rw [step] at hlive ⊢
    by_cases hne : dst = src
    · rw [if_pos hne]
      exact h
    · rw [if_neg hne] at hlive ⊢
      split at hlive
      · next this other hthis hother =>
        have hsrc := object?_of_reader? hother
        have hcached := h.cached _ (mem_of_object? hsrc)
        exact h.reassign (x := .reader this) (z := .reader (this.assign other w.storage).1) hne
          (object?_of_reader? hthis) hsrc rfl hcached hlive
      · exact h
  | destroy name =>
    rw [step]
    split
    · next x hx =>
      rw [destroy_eq]
      exact h.dec (getElem?_of_object? hx)
    · exact h

/-- A reference given up is the end of its `Refbuf` if it was the only one. -/
theorem Sound.release_mem_dec (h : Sound w) {x : Object} (hx : some x ∈ w.objects) (p : ℕ) :
    .release p ∈ (Refbuf.dec x.refbuf w.storage).calls ↔
      .release p ∈ w.storage.calls ∨ (some x.refbuf = some p ∧ w.referrers p = 1) := by
  rw [Refbuf.release_mem_dec, h.count_eq (referrers_pos hx), Option.some_inj]
  constructor
  · rintro (hp | ⟨rfl, hone⟩)
    · exact Or.inl hp
    · exact Or.inr ⟨rfl, hone⟩
  · rintro (hp | ⟨rfl, hone⟩)
    · exact Or.inl hp
    · exact Or.inr ⟨rfl, hone⟩

theorem release_mem_step (o : ByteOrder) (h : Sound w) (op : ObjectOp) (p : ℕ) :
    .release p ∈ (w.step o op).storage.calls ↔
      .release p ∈ w.storage.calls ∨ (w.drops op = some p ∧ w.referrers p = 1) := by
  cases op with
  | construct m => simp [step, drops, receive, newMessage_eq, push, Refbuf.new, onHeap]
  | readMessage received =>
    cases received with
    | some m => simp [step, drops, receive, newMessage_eq, push, Refbuf.new, onHeap]
    | none => simp [step, drops, onHeap]
  | newBuilder header initCap => simp [step, drops, onHeap]
  | build name op =>
    rw [step]
    split
    · next b hb =>
      cases op with
      | toMessage => simp [build, drops, Building.step, newMessage_eq, push, Refbuf.new, onHeap]
      | _ => simp [build, drops, Building.step, onHeap]
    · simp [drops]
  | destroyBuilder name =>
    rw [step]
    split <;> simp [drops, onHeap]
  | copy src =>
    rw [step]
    split <;> simp [drops, SharedMessage.copy, Refbuf.inc, push]
  | assign dst src =>
    rw [step, drops]
    by_cases hne : dst = src
    · simp [hne]
    · rw [if_neg hne, if_neg hne]
      split
      · next this other hthis hother =>
        have hx := mem_of_object? (object?_of_message? hthis)
        exact Refbuf.release_mem_inc.trans (h.release_mem_dec hx p)
      · simp
  | getContentPtr src =>
    rw [step]
    split <;> simp [drops, SharedMessage.getContentPtr, Refbuf.getContentPtr]
  | newReader src =>
    rw [step]
    split <;> simp [drops, SharedReader.new, SharedMessage.copy, SharedMessage.getContentPtr,
      Refbuf.getContentPtr, Refbuf.inc, push]
  | copyReader src =>
    rw [step]
    split <;> simp [drops, SharedReader.copy, SharedMessage.copy, Refbuf.inc, push]
  | assignReader dst src =>
    rw [step, drops]
    by_cases hne : dst = src
    · simp [hne]
    · rw [if_neg hne, if_neg hne]
      split
      · next this other hthis hother =>
        have hx := mem_of_object? (object?_of_reader? hthis)
        exact Refbuf.release_mem_inc.trans (h.release_mem_dec hx p)
      · simp
  | destroy name =>
    rw [step, drops]
    split
    · next x hx =>
      rw [destroy_eq, hx]
      exact h.release_mem_dec (mem_of_object? hx) p
    · next hx => simp [hx]

/-- What the counts are for.  A `Refbuf` that has been made is live or has been deleted,
once, and its content with it; which of the two depends on whether a message refers to
it.  No call goes to a deleted one, and every pointer there is leads to a live buffer. -/
structure Accounted (w : Objects) : Prop where
  counts : ∀ p ∈ held w.storage.calls, (w.storage.refbufs p).refcount.toNat = w.referrers p
  live_iff : ∀ p, p ∈ held w.storage.calls ↔ 0 < w.referrers p
  disciplined : Disciplined w.storage.calls
  deleted : ∀ p, .acquire p ∈ w.storage.calls →
    w.storage.calls.count (.release p) = if w.referrers p = 0 then 1 else 0
  freed : ∀ p, .acquire p ∈ w.storage.calls →
    w.storage.heap.freed.count (w.storage.refbufs p).content = if w.referrers p = 0 then 1 else 0
  pointers : ∀ x, some x ∈ w.objects → ∀ a ∈ x.pointers w.storage,
    a < w.storage.heap.next ∧ a ∉ w.storage.heap.freed

namespace Sound

theorem release_mem_iff (h : Sound w) {p : ℕ} (hp : .acquire p ∈ w.storage.calls) :
    .release p ∈ w.storage.calls ↔ w.referrers p = 0 := by
  rw [h.exact.disciplined.release_mem_iff hp, h.exact.held_iff, Nat.pos_iff_ne_zero, not_not]

theorem accounted (h : Sound w) : Accounted w where
  counts p hp := h.count_eq ((h.exact.held_iff p).mp hp)
  live_iff := h.exact.held_iff
  disciplined := h.exact.disciplined
  deleted p hp := by
    split_ifs with hzero
    · have hmem := (h.release_mem_iff hp).mpr hzero
      exact Nat.le_antisymm (h.exact.disciplined.count_release_le p) (List.count_pos_iff.mpr hmem)
    · exact List.count_eq_zero_of_not_mem (mt (h.release_mem_iff hp).mp hzero)
  freed p hp := by
    split_ifs with hzero
    · exact List.count_eq_one_of_mem h.owned.freed_nodup
        (h.freed p ((h.release_mem_iff hp).mpr hzero))
    · have hown := h.own_refbuf (Nat.pos_of_ne_zero hzero)
      exact List.count_eq_zero_of_not_mem (h.owned.live _ _ hown).2
  pointers x hx a ha := by
    have hlive := h.owned.live _ _ (h.own_refbuf (referrers_pos hx))
    cases x with
    | message m =>
      rw [List.mem_singleton.mp ha]
      exact hlive
    | reader r =>
      have hcached : r.content = (w.storage.refbufs r.message.content).content := h.cached _ hx
      simp only [Object.pointers, hcached, List.mem_cons, List.not_mem_nil, or_false, or_self] at ha
      rw [ha]
      exact hlive

theorem deletes_iff (h : Sound w) (o : ByteOrder) (op : ObjectOp) (p : ℕ) :
    (.release p ∉ w.storage.calls ∧ .release p ∈ (w.step o op).storage.calls) ↔
      (w.drops op = some p ∧ w.referrers p = 1) := by
  rw [release_mem_step o h]
  constructor
  · rintro ⟨hnot, hp | hlast⟩
    · exact absurd hp hnot
    · exact hlast
  · intro hlast
    have hheld := h.exact.mem_held (b := p) (by omega)
    exact ⟨fun hp => h.exact.disciplined.not_held_of_released hp hheld, Or.inr hlast⟩

end Sound

/-- With fewer than 2^32 messages at any time, whatever a program does: the counts are
right, each buffer is deleted once, and no message or reader is left with a deleted one.
An operation deletes a `Refbuf` exactly when it gives up the only reference to it. -/
theorem buffers_accounted (o : ByteOrder) (mem : ℕ → Mem) (refbufs : ℕ → Refbuf)
    (ops : List ObjectOp)
    (hlive : ∀ pre, pre <+: ops → (pre.foldl (step o) (start mem refbufs)).live < 2 ^ 32) :
    (∀ pre, pre <+: ops → Accounted (pre.foldl (step o) (start mem refbufs))) ∧
      Along (step o) (fun w op => ∀ p,
        (.release p ∉ w.storage.calls ∧ .release p ∈ (w.step o op).storage.calls) ↔
          (w.drops op = some p ∧ w.referrers p = 1)) (start mem refbufs) ops := by
  have hsteps := ((forall_prefix_iff (J := fun w : Objects => w.live < 2 ^ 32) _ _).mp hlive).2
  have hsound : ∀ pre, pre <+: ops → Sound (pre.foldl (step o) (start mem refbufs)) := by
    rintro pre ⟨post, rfl⟩
    rw [along_append] at hsteps
    exact invariant_run_of_along (J := Sound) (fun w op h hl => step_sound o h op hl)
      (start_sound mem refbufs) hsteps.1
  refine ⟨fun pre hpre => (hsound pre hpre).accounted, ?_⟩
  rw [along_iff_split]
  rintro pre op post rfl p
  exact (hsound pre (List.prefix_append pre _)).deletes_iff o op p

/-- A message is copied, read, assigned to itself, to a copy that shares its buffer and
over with the message of a builder; the last reader to go takes the first buffer along. -/
theorem buffers_accounted_sample :
    let run := ([.construct ⟨1, 2, fun _ => 7⟩, .copy 0, .newReader 1, .copyReader 2, .assign 0 0,
      .assign 0 1, .newBuilder 4 0, .build 0 (.write (.char 9)), .build 0 .toMessage, .assign 0 4,
      .destroy 1, .destroy 2, .destroy 3, .destroyBuilder 0] : List ObjectOp).foldl (step .little)
        (start (fun _ _ => 0) fun _ => ⟨0, 0⟩)
    Accounted run ∧ run.storage.heap.freed = [3, 0, 1] ∧ run.referrers 1 = 2 ∧ run.live = 2 :=
  ⟨(buffers_accounted .little _ _ _
      ((forall_prefix_iff (J := fun w : Objects => w.live < 2 ^ 32) _ _).mpr
        ⟨by decide, by decide⟩)).1 _ (List.prefix_refl _), by decide, by decide, by decide⟩

end Objects

end VmPlayback
