import P256Index.Codec.Bytes

/-!
# ABI encoding

The head/tail layout of the Ethereum contract ABI, as codec combinators. A `Codec α` says how a
value of `α` is written and read; `Fields α` is the same for a *sequence* of components sharing one
head section, where a static component stands in the head itself and a dynamic one leaves its
offset there and its bytes in the tail section.

    word₁ │ offset₂ │ word₃ │ … │ tail₂ │ …
    └────────── head ────────┘└── tail ──┘

The law is one: a value is read back from the front of its own encoding, whatever follows
(`Codec.Lawful`), as long as the whole buffer is addressable by one word. Every combinator keeps
it, so an encoding built from them is injective (`Codec.Lawful.encode_injective`) — which is all
the hash preimages of this development need — and readable — which is what calldata needs.
-/

namespace P256Index.Abi

/-- How one ABI type is written and read. `size` is the number of head bytes of a static type. -/
structure Codec (α : Type) where
  dynamic : Bool
  size : Nat
  encode : α → Bytes
  decode : Bytes → Option α

/-- A component occupies one offset word in the head when it is dynamic. -/
def Codec.headSize {α : Type} (c : Codec α) : Nat := if c.dynamic then 32 else c.size

/-- Reading back: any value stands at the front of its own encoding. -/
structure Codec.Lawful {α : Type} (c : Codec α) : Prop where
  size_eq : c.dynamic = false → ∀ v, (c.encode v).length = c.size
  decode_encode : ∀ v rest, (c.encode v ++ rest).length < 2 ^ 256 →
    c.decode (c.encode v ++ rest) = some v

/-- A lawful encoding determines its value. -/
theorem Codec.Lawful.encode_injective {α : Type} {c : Codec α} (h : c.Lawful) {v w : α}
    (hlen : (c.encode v).length < 2 ^ 256) (heq : c.encode v = c.encode w) : v = w := by
  have hv := h.decode_encode v [] (by simpa using hlen)
  have hw := h.decode_encode w [] (by simpa [← heq] using hlen)
  rw [heq, hw] at hv
  exact (Option.some.inj hv).symm

/-! ## Static words -/

/-- A type stored in one word, through a number. -/
def Codec.ofNat {α : Type} (code : α → Nat) (of : Nat → Option α) : Codec α where
  dynamic := false
  size := 32
  encode v := word (code v)
  decode buf := (readWord buf 0).bind of

theorem Codec.ofNat_lawful {α : Type} {code : α → Nat} {of : Nat → Option α}
    (hlt : ∀ v, code v < 2 ^ 256) (hof : ∀ v, of (code v) = some v) :
    (Codec.ofNat code of).Lawful where
  size_eq _ v := word_length _
  decode_encode v rest _ := by
    simp only [Codec.ofNat, readWord_word_append (hlt v), Option.bind_some, hof]

/-- `uint256`. -/
def uint256 : Codec U256 :=
  Codec.ofNat (fun n => n.val) (fun n => if h : n < 2 ^ 256 then some ⟨n, h⟩ else none)

theorem uint256_lawful : uint256.Lawful :=
  Codec.ofNat_lawful (fun n => n.isLt) (fun n => by simp)

/-- `address`: the high 12 bytes must be zero. -/
def address : Codec Address :=
  Codec.ofNat (fun n => n.val) (fun n => if h : n < 2 ^ 160 then some ⟨n, h⟩ else none)

theorem address_lawful : address.Lawful :=
  Codec.ofNat_lawful (fun n => lt_trans n.isLt (by norm_num)) (fun n => by simp)

/-- `bytes32`: the bytes themselves. -/
def bytes32 : Codec Bytes32 where
  dynamic := false
  size := 32
  encode v := v.val
  decode buf := if h : (buf.take 32).length = 32 then some ⟨buf.take 32, h⟩ else none

theorem bytes32_lawful : bytes32.Lawful where
  size_eq _ v := v.property
  decode_encode v rest _ := by
    have htake : (v.val ++ rest).take 32 = v.val := List.take_left' v.property
    simp only [bytes32, htake, v.property, dite_true]

/-! ## Dynamic bytes -/

/-- The number of zero bytes that fill the last word of `n` bytes. -/
def padding (n : Nat) : Nat := (32 - n % 32) % 32

/-- `bytes` (and `string`, whose bytes the ABI does not interpret): length word, then the bytes
padded to whole words. -/
def bytes : Codec Bytes where
  dynamic := true
  size := 0
  encode b := word b.length ++ (b ++ List.replicate (padding b.length) 0)
  decode buf := (readWord buf 0).bind fun n =>
    if 32 + n ≤ buf.length then some ((buf.drop 32).take n) else none

theorem bytes_encode_length (b : Bytes) :
    (bytes.encode b).length = 32 + (b.length + padding b.length) := by
  simp [bytes]

theorem bytes_lawful : bytes.Lawful where
  size_eq h := by simp [bytes] at h
  decode_encode b rest hlen := by
    have hb : b.length < 2 ^ 256 := by
      rw [List.length_append, bytes_encode_length] at hlen
      omega
    simp only [bytes, List.append_assoc, readWord_word_append hb, Option.bind_some]
    have hfits : 32 + b.length ≤
        (word b.length ++ (b ++ (List.replicate (padding b.length) 0 ++ rest))).length := by
      simp only [List.length_append, word_length]
      omega
    rw [if_pos hfits, List.drop_left' (word_length _), List.take_left]

/-! ## Sequences of components -/

/-- A sequence of components sharing a head section. `heads off v` writes the heads when the tails
start at `off`; `decode buf pos` reads the components whose heads start at `pos` of `buf`, which is
the whole sequence's buffer (offsets are relative to its front). -/
structure Fields (α : Type) where
  dynamic : Bool
  headSize : Nat
  heads : Nat → α → Bytes
  tails : α → Bytes
  decode : Bytes → Nat → Option α

/-- Reading back a sequence inside a larger layout: `p` precedes the heads, `m` separates them from
the tails, `rest` follows. A sequence without dynamic components leaves no tail. -/
structure Fields.Lawful {α : Type} (f : Fields α) : Prop where
  heads_length : ∀ off v, (f.heads off v).length = f.headSize
  tails_nil : f.dynamic = false → ∀ v, f.tails v = []
  decode_encode : ∀ v (p m rest : Bytes) (off : Nat), off = p.length + f.headSize + m.length →
    (p ++ (f.heads off v ++ (m ++ (f.tails v ++ rest)))).length < 2 ^ 256 →
    f.decode (p ++ (f.heads off v ++ (m ++ (f.tails v ++ rest)))) p.length = some v

def Fields.nil : Fields Unit where
  dynamic := false
  headSize := 0
  heads _ _ := []
  tails _ := []
  decode _ _ := some ()

theorem Fields.nil_lawful : Fields.nil.Lawful where
  heads_length _ _ := rfl
  tails_nil _ _ := rfl
  decode_encode _ _ _ _ _ _ _ := rfl

/-- Read one component whose head stands at `pos`. -/
def Codec.readAt {α : Type} (c : Codec α) (buf : Bytes) (pos : Nat) : Option α :=
  if c.dynamic then (readWord buf pos).bind fun off => c.decode (buf.drop off)
  else c.decode (buf.drop pos)

/-- One component's head when its tail starts at `off`. -/
def Codec.head {α : Type} (c : Codec α) (off : Nat) (v : α) : Bytes :=
  if c.dynamic then word off else c.encode v

/-- One component's tail. -/
def Codec.tail {α : Type} (c : Codec α) (v : α) : Bytes :=
  if c.dynamic then c.encode v else []

theorem Codec.Lawful.head_length {α : Type} {c : Codec α} (h : c.Lawful) (off : Nat) (v : α) :
    (c.head off v).length = c.headSize := by
  unfold Codec.head Codec.headSize
  cases hd : c.dynamic with
  | true => simp
  | false => simpa using h.size_eq hd v

/-- A component is read back through its head, directly or by following the offset. -/
theorem Codec.Lawful.readAt_eq {α : Type} {c : Codec α} (h : c.Lawful) (v : α)
    (p m rest : Bytes) (off : Nat) (hoff : off = p.length + c.headSize + m.length)
    (hlen : (p ++ (c.head off v ++ (m ++ (c.tail v ++ rest)))).length < 2 ^ 256) :
    c.readAt (p ++ (c.head off v ++ (m ++ (c.tail v ++ rest)))) p.length = some v := by
  unfold Codec.readAt
  unfold Codec.head Codec.tail at hlen ⊢
  cases hd : c.dynamic with
  | true =>
      simp only [hd, if_true] at hlen ⊢
      simp only [Codec.headSize, hd, if_true] at hoff
      have hlt : off < 2 ^ 256 := by
        simp only [List.length_append, word_length] at hlen
        omega
      have hdrop : (p ++ (word off ++ (m ++ (c.encode v ++ rest)))).drop off =
          c.encode v ++ rest := by
        rw [← List.append_assoc, ← List.append_assoc]
        exact List.drop_left' (by simp only [List.length_append, word_length]; omega)
      rw [readWord_append hlt, Option.bind_some, hdrop]
      refine h.decode_encode v rest ?_
      simp only [List.length_append] at hlen ⊢
      omega
  | false =>
      simp only [hd, Bool.false_eq_true, if_false] at hlen ⊢
      rw [List.drop_left]
      refine h.decode_encode v _ ?_
      simp only [List.length_append] at hlen ⊢
      omega

/-- Put one component in front of a sequence. -/
def Fields.cons {α β : Type} (c : Codec α) (f : Fields β) : Fields (α × β) where
  dynamic := c.dynamic || f.dynamic
  headSize := c.headSize + f.headSize
  heads off v := c.head off v.1 ++ f.heads (off + (c.tail v.1).length) v.2
  tails v := c.tail v.1 ++ f.tails v.2
  decode buf pos :=
    (c.readAt buf pos).bind fun a => (f.decode buf (pos + c.headSize)).map fun b => (a, b)

theorem Fields.cons_lawful {α β : Type} {c : Codec α} {f : Fields β} (hc : c.Lawful)
    (hf : f.Lawful) : (Fields.cons c f).Lawful where
  heads_length off v := by
    simp only [Fields.cons, List.length_append, hc.head_length, hf.heads_length]
  tails_nil h v := by
    simp only [Fields.cons, Bool.or_eq_false_iff] at h ⊢
    simp only [Codec.tail, h.1, Bool.false_eq_true, if_false, List.nil_append]
    exact hf.tails_nil h.2 v.2
  decode_encode v p m rest off hoff hlen := by
    obtain ⟨a, b⟩ := v
    simp only [Fields.cons] at hoff hlen ⊢
    -- the first component: its head follows `p`, its tail opens the tail section
    have hhead := hf.heads_length (off + (c.tail a).length) b
    have hfirst : c.readAt (p ++ (c.head off a ++
        ((f.heads (off + (c.tail a).length) b ++ m) ++ (c.tail a ++ (f.tails b ++ rest))))) p.length
        = some a := by
      refine hc.readAt_eq a p _ _ off ?_ ?_
      · rw [List.length_append, hhead]
        omega
      · simpa only [List.append_assoc] using hlen
    -- the others: the first head joins what precedes, the first tail what separates
    have hrest : f.decode ((p ++ c.head off a) ++ (f.heads (off + (c.tail a).length) b ++
        ((m ++ c.tail a) ++ (f.tails b ++ rest)))) (p ++ c.head off a).length = some b := by
      refine hf.decode_encode b _ _ _ _ ?_ ?_
      · simp only [List.length_append, hc.head_length]
        omega
      · simpa only [List.append_assoc] using hlen
    simp only [List.append_assoc, List.length_append, hc.head_length] at hfirst hrest ⊢
    rw [hfirst, Option.bind_some, hrest, Option.map_some]

/-- A tuple: static when all its components are. -/
def Codec.tuple {α : Type} (f : Fields α) : Codec α where
  dynamic := f.dynamic
  size := f.headSize
  encode v := f.heads f.headSize v ++ f.tails v
  decode buf := f.decode buf 0

theorem Codec.tuple_lawful {α : Type} {f : Fields α} (hf : f.Lawful) : (Codec.tuple f).Lawful where
  size_eq h v := by
    simp only [Codec.tuple, List.length_append, hf.heads_length, hf.tails_nil h,
      List.length_nil, Nat.add_zero]
  decode_encode v rest hlen := by
    have hread := hf.decode_encode v [] [] rest f.headSize (by simp)
      (by simpa only [Codec.tuple, List.nil_append, List.append_assoc] using hlen)
    simpa only [Codec.tuple, List.nil_append, List.append_assoc, List.length_nil] using hread

/-- A sequence that starts with a dynamic component starts with the size of its head section. -/
theorem readWord_tuple_cons {α β : Type} {c : Codec α} {f : Fields β} (hdyn : c.dynamic = true)
    (hsize : (Fields.cons c f).headSize < 2 ^ 256) (v : α × β) :
    readWord ((Codec.tuple (Fields.cons c f)).encode v) 0 = some (Fields.cons c f).headSize := by
  have hhead : c.head (Fields.cons c f).headSize v.1 = word (Fields.cons c f).headSize := by
    rw [Codec.head, hdyn, if_pos rfl]
  show readWord ((c.head (Fields.cons c f).headSize v.1 ++ _) ++ _) 0 = _
  rw [hhead, List.append_assoc]
  exact readWord_word_append hsize

/-! ## Dynamic arrays -/

/-- The heads of a list of components of one type. -/
def Codec.listHeads {α : Type} (c : Codec α) : Nat → List α → Bytes
  | _, [] => []
  | off, v :: vs => c.head off v ++ c.listHeads (off + (c.tail v).length) vs

/-- The tails of a list of components of one type. -/
def Codec.listTails {α : Type} (c : Codec α) (vs : List α) : Bytes := vs.flatMap c.tail

/-- Read `n` components of one type. -/
def Codec.readList {α : Type} (c : Codec α) (buf : Bytes) : Nat → Nat → Option (List α)
  | _, 0 => some []
  | pos, n + 1 => (c.readAt buf pos).bind fun v =>
      (c.readList buf (pos + c.headSize) n).map fun vs => v :: vs

theorem Codec.Lawful.listHeads_length {α : Type} {c : Codec α} (h : c.Lawful) (vs : List α) :
    ∀ off, (c.listHeads off vs).length = vs.length * c.headSize := by
  induction vs with
  | nil => intro off; simp [Codec.listHeads]
  | cons v vs ih =>
      intro off
      rw [Codec.listHeads, List.length_append, h.head_length, ih, List.length_cons]
      ring

theorem Codec.Lawful.readList_eq {α : Type} {c : Codec α} (h : c.Lawful) (vs : List α) :
    ∀ (p m rest : Bytes) (off : Nat), off = p.length + vs.length * c.headSize + m.length →
    (p ++ (c.listHeads off vs ++ (m ++ (c.listTails vs ++ rest)))).length < 2 ^ 256 →
    c.readList (p ++ (c.listHeads off vs ++ (m ++ (c.listTails vs ++ rest)))) p.length vs.length
      = some vs := by
  induction vs with
  | nil => intros; rfl
  | cons v vs ih =>
      intro p m rest off hoff hlen
      have hcons : (v :: vs).length * c.headSize = c.headSize + vs.length * c.headSize := by
        rw [List.length_cons]
        ring
      rw [hcons] at hoff
      simp only [Codec.listHeads, Codec.listTails, List.flatMap_cons] at hlen ⊢
      have hhead := h.listHeads_length vs (off + (c.tail v).length)
      have hfirst : c.readAt (p ++ (c.head off v ++ ((c.listHeads (off + (c.tail v).length) vs ++ m)
          ++ (c.tail v ++ (vs.flatMap c.tail ++ rest))))) p.length = some v := by
        refine h.readAt_eq v p _ _ off ?_ ?_
        · rw [List.length_append, hhead]
          omega
        · simpa only [List.append_assoc] using hlen
      have hrest : c.readList ((p ++ c.head off v) ++ (c.listHeads (off + (c.tail v).length) vs ++
          ((m ++ c.tail v) ++ (c.listTails vs ++ rest)))) (p ++ c.head off v).length vs.length
          = some vs := by
        refine ih _ _ _ _ ?_ ?_
        · simp only [List.length_append, h.head_length]
          omega
        · simpa only [Codec.listTails, List.append_assoc] using hlen
      simp only [Codec.listTails, List.append_assoc, List.length_append, h.head_length]
        at hfirst hrest
      rw [List.length_cons, Codec.readList]
      simp only [List.append_assoc]
      rw [hfirst, Option.bind_some, hrest, Option.map_some]

/-- `T[]`: length word, then the elements as one sequence. -/
def array {α : Type} (c : Codec α) : Codec (List α) where
  dynamic := true
  size := 0
  encode vs := word vs.length ++ (c.listHeads (vs.length * c.headSize) vs ++ c.listTails vs)
  decode buf := (readWord buf 0).bind fun n => c.readList (buf.drop 32) 0 n

/-- The head section has at least one byte per element, so a length that is not addressable has no
encoding in an addressable buffer. -/
theorem array_lawful {α : Type} {c : Codec α} (h : c.Lawful) (hpos : 0 < c.headSize) :
    (array c).Lawful where
  size_eq hd := by simp [array] at hd
  decode_encode vs rest hlen := by
    have hlen' := hlen
    simp only [array, List.length_append, word_length, h.listHeads_length] at hlen'
    have hle : vs.length ≤ vs.length * c.headSize := Nat.le_mul_of_pos_right _ hpos
    have hn : vs.length < 2 ^ 256 := by omega
    simp only [array, List.append_assoc, readWord_word_append hn, Option.bind_some]
    rw [List.drop_left' (word_length _)]
    have hread := h.readList_eq vs [] [] rest (vs.length * c.headSize) (by simp) (by
      simp only [List.nil_append, List.length_append, h.listHeads_length]
      omega)
    simpa only [List.nil_append, List.length_nil] using hread

/-! ## Structures -/

/-- A codec read through an isomorphism: how a `struct` is laid out as the tuple of its fields. -/
def Codec.via {α β : Type} (c : Codec α) (mk : α → β) (of : β → α) : Codec β where
  dynamic := c.dynamic
  size := c.size
  encode v := c.encode (of v)
  decode buf := (c.decode buf).map mk

theorem Codec.via_lawful {α β : Type} {c : Codec α} (h : c.Lawful) {mk : α → β} {of : β → α}
    (hmk : ∀ v, mk (of v) = v) : (c.via mk of).Lawful where
  size_eq hd v := h.size_eq hd (of v)
  decode_encode v rest hlen := by
    simp only [Codec.via] at hlen ⊢
    rw [h.decode_encode (of v) rest hlen, Option.map_some, hmk]

/-! ## Sizes -/

theorem Fields.Lawful.encode_length {α : Type} {f : Fields α} (h : f.Lawful) (v : α) :
    ((Codec.tuple f).encode v).length = f.headSize + (f.tails v).length := by
  simp only [Codec.tuple, List.length_append, h.heads_length]

@[simp] theorem Fields.tails_cons {α β : Type} (c : Codec α) (f : Fields β) (v : α × β) :
    (Fields.cons c f).tails v = c.tail v.1 ++ f.tails v.2 := rfl

@[simp] theorem Fields.tails_nil (v : Unit) : Fields.nil.tails v = [] := rfl

@[simp] theorem uint256_tail (n : U256) : uint256.tail n = [] := rfl
@[simp] theorem address_tail (a : Address) : address.tail a = [] := rfl
@[simp] theorem bytes32_tail (b : Bytes32) : bytes32.tail b = [] := rfl
@[simp] theorem bytes_tail (b : Bytes) : bytes.tail b = bytes.encode b := rfl
@[simp] theorem array_tail {α : Type} (c : Codec α) (vs : List α) :
    (array c).tail vs = (array c).encode vs := rfl

theorem bytes_encode_length_le (b : Bytes) : (bytes.encode b).length ≤ b.length + 64 := by
  rw [bytes_encode_length, padding]
  omega

/-- An array of elements of bounded size is of bounded size. -/
theorem array_encode_length_le {α : Type} {c : Codec α} (h : c.Lawful) {vs : List α} {k : Nat}
    (hk : ∀ v ∈ vs, (c.tail v).length ≤ k) :
    ((array c).encode vs).length ≤ 32 + vs.length * (c.headSize + k) := by
  have htails : (c.listTails vs).length ≤ vs.length * k := by
    rw [Codec.listTails, List.length_flatMap]
    have hsum := List.sum_le_card_nsmul (vs.map fun v => (c.tail v).length) k (by
      intro n hn
      obtain ⟨v, hv, rfl⟩ := List.mem_map.mp hn
      exact hk v hv)
    simpa using hsum
  simp only [array, List.length_append, word_length, h.listHeads_length, Nat.mul_add]
  omega

end P256Index.Abi
