import BlockSeal.Digest.Basic

/-! # The BLAKE3 hash function

* `Lanes`, `mixed`, `rounds`: the permutation on a state of four rows of four words.
* `Node`: one input of the compression function that still waits for its place in the tree: a
  chunk's last block, or the pair of chaining values of two subtrees.
* `root`: the node at the top of the hash tree of a byte string.
* `hash`, `extended`: the 32-byte digest and the output of arbitrary length.

The tree over the chunks gives each left subtree the largest power of two of chunks that leaves
at least one for the right. Joining neighbours level by level and carrying an odd last node
upwards builds that same tree (`joinPairs`).
-/

set_option autoImplicit false

namespace BlockSeal.Blake3

/-! ## The permutation -/

structure Lanes where
  a : UInt32
  b : UInt32
  c : UInt32
  d : UInt32
deriving DecidableEq, Inhabited

namespace Lanes

@[inline] def map₂ (f : UInt32 → UInt32 → UInt32) (x y : Lanes) : Lanes :=
  ⟨f x.a y.a, f x.b y.b, f x.c y.c, f x.d y.d⟩

@[inline] def xorRotate (n : UInt32) (x y : Lanes) : Lanes :=
  map₂ (fun u v => (u ^^^ v).rotateRight n) x y

def shift (x : Lanes) : Lanes := ⟨x.b, x.c, x.d, x.a⟩

def toList (x : Lanes) : List UInt32 := [x.a, x.b, x.c, x.d]

end Lanes

instance : Add Lanes := ⟨Lanes.map₂ (· + ·)⟩
instance : XorOp Lanes := ⟨Lanes.map₂ (· ^^^ ·)⟩

structure State where
  r₀ : Lanes
  r₁ : Lanes
  r₂ : Lanes
  r₃ : Lanes
deriving DecidableEq, Inhabited

/-- The sixteen words of a block, in the order in which a round takes them. -/
structure Message where
  m₀ : Lanes
  m₁ : Lanes
  m₂ : Lanes
  m₃ : Lanes
deriving DecidableEq, Inhabited

/-- All four columns mixed with the message words `x` and `y`. -/
def mixed (s : State) (x y : Lanes) : State :=
  let r₀ := s.r₀ + s.r₁ + x
  let r₃ := Lanes.xorRotate 16 s.r₃ r₀
  let r₂ := s.r₂ + r₃
  let r₁ := Lanes.xorRotate 12 s.r₁ r₂
  let r₀ := r₀ + r₁ + y
  let r₃ := Lanes.xorRotate 8 r₃ r₀
  let r₂ := r₂ + r₃
  let r₁ := Lanes.xorRotate 7 r₁ r₂
  ⟨r₀, r₁, r₂, r₃⟩

/-- The state turned so that its diagonals stand in the columns. -/
def State.diagonal (s : State) : State := ⟨s.r₀, s.r₁.shift, s.r₂.shift.shift, s.r₃.shift.shift.shift⟩

/-- The state turned back, so that the columns are columns again. -/
def State.upright (s : State) : State := ⟨s.r₀, s.r₁.shift.shift.shift, s.r₂.shift.shift, s.r₃.shift⟩

def round (s : State) (m : Message) : State :=
  let s := mixed s ⟨m.m₀.a, m.m₀.c, m.m₁.a, m.m₁.c⟩ ⟨m.m₀.b, m.m₀.d, m.m₁.b, m.m₁.d⟩
  (mixed s.diagonal ⟨m.m₂.a, m.m₂.c, m.m₃.a, m.m₃.c⟩ ⟨m.m₂.b, m.m₂.d, m.m₃.b, m.m₃.d⟩).upright

/-- The message words in the order of the next round. -/
def Message.permuted (m : Message) : Message where
  m₀ := ⟨m.m₀.c, m.m₁.c, m.m₀.d, m.m₂.c⟩
  m₁ := ⟨m.m₁.d, m.m₀.a, m.m₁.a, m.m₃.b⟩
  m₂ := ⟨m.m₀.b, m.m₂.d, m.m₃.a, m.m₁.b⟩
  m₃ := ⟨m.m₂.b, m.m₃.c, m.m₃.d, m.m₂.a⟩

def rounds : (n : Nat) → State → Message → State
  | 0, s, _ => s
  | n + 1, s, m => rounds n (round s m) m.permuted

/-! ## Nodes of the hash tree -/

structure Chaining where
  low : Lanes
  high : Lanes
deriving DecidableEq, Inhabited

def initial : Chaining where
  low := ⟨0x6a09e667, 0xbb67ae85, 0x3c6ef372, 0xa54ff53a⟩
  high := ⟨0x510e527f, 0x9b05688c, 0x1f83d9ab, 0x5be0cd19⟩

def chunkStart : UInt32 := 1
def chunkEnd : UInt32 := 2
def parentMark : UInt32 := 4
def rootMark : UInt32 := 8

/-- One pending input of the compression function. -/
structure Node where
  chaining : Chaining
  message : Message
  counter : UInt64
  blockLength : UInt32
  flags : UInt32
deriving Inhabited

namespace Node

/-- The compression function: both halves of its sixteen-word output. -/
def compressed (n : Node) : State :=
  let s := rounds 7
    ⟨n.chaining.low, n.chaining.high, initial.low,
      ⟨n.counter.toUInt32, (n.counter >>> 32).toUInt32, n.blockLength, n.flags⟩⟩
    n.message
  ⟨s.r₀ ^^^ s.r₂, s.r₁ ^^^ s.r₃, s.r₂ ^^^ n.chaining.low, s.r₃ ^^^ n.chaining.high⟩

/-- The chaining value that the node hands to its parent. -/
def output (n : Node) : Chaining :=
  let s := n.compressed
  ⟨s.r₀, s.r₁⟩

def join (l r : Node) : Node where
  chaining := initial
  message :=
    let x := l.output
    let y := r.output
    ⟨x.low, x.high, y.low, y.high⟩
  counter := 0
  blockLength := 64
  flags := parentMark

end Node

/-! ## Chunks -/

/-- The word that the bytes at hand spell, least significant first; bytes past the end are zero. -/
def word : Bytes → UInt32 × Bytes
  | a :: b :: c :: d :: r =>
    (a.toUInt32 ||| (b.toUInt32 <<< 8) ||| (c.toUInt32 <<< 16) ||| (d.toUInt32 <<< 24), r)
  | [a, b, c] => (a.toUInt32 ||| (b.toUInt32 <<< 8) ||| (c.toUInt32 <<< 16), [])
  | [a, b] => (a.toUInt32 ||| (b.toUInt32 <<< 8), [])
  | [a] => (a.toUInt32, [])
  | [] => (0, [])

def lanes (l : Bytes) : Lanes × Bytes :=
  let (a, l) := word l
  let (b, l) := word l
  let (c, l) := word l
  let (d, l) := word l
  (⟨a, b, c, d⟩, l)

/-- The words of a block of at most 64 bytes, filled up with zeros. -/
def message (block : Bytes) : Message :=
  let (m₀, l) := lanes block
  let (m₁, l) := lanes l
  let (m₂, l) := lanes l
  let (m₃, _) := lanes l
  ⟨m₀, m₁, m₂, m₃⟩

/-- The node of a chunk whose blocks before `block` left the chaining value `chaining`; `first` is
the mark of a chunk's first block, or nothing. -/
def blockNode (counter : UInt64) (chaining : Chaining) (first : UInt32) (block : Bytes) : Node where
  chaining := chaining
  message := message block
  counter := counter
  blockLength := UInt32.ofNat block.length
  flags := first

def chunkNode (counter : UInt64) (chaining : Chaining) (first : UInt32) (block : Bytes) :
    (rest : List Bytes) → Node
  | [] => blockNode counter chaining (first ||| chunkEnd) block
  | next :: rest =>
    chunkNode counter (blockNode counter chaining first block).output 0 next rest

/-- The node of chunk number `counter`, a piece of at most 1024 bytes. -/
def chunk (counter : Nat) (bytes : Bytes) : Node :=
  match cutEvery 64 bytes with
  | [] => chunkNode (UInt64.ofNat counter) initial chunkStart [] []
  | block :: rest => chunkNode (UInt64.ofNat counter) initial chunkStart block rest

/-- The nodes of all chunks, the empty string being one empty chunk. -/
def chunks (bytes : Bytes) : List Node :=
  match cutEvery 1024 bytes with
  | [] => [chunk 0 []]
  | pieces => pieces.mapIdx chunk

/-! ## The tree -/

/-- One level of the tree: neighbours are joined, an odd last node is carried upwards. -/
def joinPairs : List Node → List Node
  | l :: r :: rest => l.join r :: joinPairs rest
  | nodes => nodes

/-- The top of the tree over `node :: rest`, after at most `height` levels. -/
def top : (height : Nat) → (node : Node) → (rest : List Node) → Node
  | 0, node, _ => node
  | _ + 1, node, [] => node
  | height + 1, node, next :: rest => top height (node.join next) (joinPairs rest)

/-- The root of the hash tree of `bytes`. -/
def root (bytes : Bytes) : Node :=
  match chunks bytes with
  | [] => chunk 0 []
  | node :: rest => { top rest.length node rest with flags := (top rest.length node rest).flags ||| rootMark }

/-! ## Output -/

def wordBytes (x : UInt32) : Bytes :=
  [x.toUInt8, (x >>> 8).toUInt8, (x >>> 16).toUInt8, (x >>> 24).toUInt8]

def laneBytes (x : Lanes) : Bytes := wordBytes x.a ++ wordBytes x.b ++ wordBytes x.c ++ wordBytes x.d

/-- Block number `i` of the output stream of the tree with root `r`. -/
def outputBlock (r : Node) (i : Nat) : Bytes :=
  let s := { r with counter := UInt64.ofNat i }.compressed
  laneBytes s.r₀ ++ laneBytes s.r₁ ++ laneBytes s.r₂ ++ laneBytes s.r₃

def hash (bytes : Bytes) : Octets 32 :=
  let c := (root bytes).output
  ⟨laneBytes c.low ++ laneBytes c.high, rfl⟩

/-- The first `n` bytes of the output stream of `bytes`. -/
def extended (bytes : Bytes) (n : Nat) : Bytes :=
  let r := root bytes
  ((List.range (n / 64 + 1)).flatMap (outputBlock r)).take n

theorem length_outputBlock (r : Node) (i : Nat) : (outputBlock r i).length = 64 := rfl

@[simp] theorem length_extended (bytes : Bytes) (n : Nat) : (extended bytes n).length = n := by
  have h : ∀ k, ((List.range k).flatMap (outputBlock (root bytes))).length = 64 * k := by
    intro k
    induction k with
    | zero => rfl
    | succ k ih => simp [List.range_succ, ih, length_outputBlock, Nat.mul_add]
  simp only [extended, List.length_take, h]
  omega

end BlockSeal.Blake3
