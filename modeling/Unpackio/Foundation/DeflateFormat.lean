/-
The Deflate64 format: the bits of a row of blocks, and the output that they stand for.

A block is a row of bytes or of tokens.  A token is a byte or a match with earlier output,
and its codes are canonical ones, either fixed or sent in front of the tokens.  A code
length has a code of its own there, and runs of code lengths have short forms.
-/
import Unpackio.Foundation.CanonicalCode
import Unpackio.Foundation.Lz77

namespace DeflateFormat

open BitPack CanonicalCode Lz77

/-- The bits behind the code of a length.  The last code has a field of its own. -/
def lengthExtra (index : Nat) : Nat := if index = 28 then 16 else (index - 4) / 4

def distanceExtra (index : Nat) : Nat := (index - 2) / 2

/-- The numbers that the codes in front of one stand for. -/
def covered (extra : Nat → Nat) (index : Nat) : Nat :=
  ((List.range index).map fun i => 2 ^ extra i).sum

def lengthBase (index : Nat) : Nat := if index = 28 then 3 else 3 + covered lengthExtra index

def distanceBase (index : Nat) : Nat := 1 + covered distanceExtra index

/-- One of `count` codes, and the number in its extra bits. -/
structure Choice (extra : Nat → Nat) (count : Nat) where
  index : Nat
  offset : Nat
  index_lt : index < count
  offset_lt : offset < 2 ^ extra index
  deriving DecidableEq, Repr

abbrev LengthChoice : Type := Choice lengthExtra 29
abbrev DistanceChoice : Type := Choice distanceExtra 32

def LengthChoice.length (choice : LengthChoice) : Nat := lengthBase choice.index + choice.offset

def DistanceChoice.distance (choice : DistanceChoice) : Nat :=
  distanceBase choice.index + choice.offset

/-- The code lengths of the literals and lengths of a block, and of its distances. -/
structure BlockCode where
  literals : List Nat
  distances : List Nat
  deriving DecidableEq, Repr

inductive Token where
  | literal (value : UInt8)
  | copy (length : LengthChoice) (distance : DistanceChoice)
  deriving DecidableEq, Repr

namespace Token

def HasCode (code : BlockCode) : Token → Prop
  | literal value => lengthOf code.literals value.toNat ≠ 0
  | copy length distance =>
    lengthOf code.literals (257 + length.index) ≠ 0 ∧
      lengthOf code.distances distance.index ≠ 0

def Fits (output : List UInt8) : Token → Prop
  | literal _ => True
  | copy _ distance => distance.distance ≤ output.length

def bytes (output : List UInt8) : Token → List UInt8
  | literal value => [value]
  | copy length distance => copied output distance.distance length.length

def bits (code : BlockCode) : Token → List Bool
  | literal value => codeBits code.literals value.toNat
  | copy length distance =>
    codeBits code.literals (257 + length.index) ++
      (bitsOf (lengthExtra length.index) length.offset ++
        (codeBits code.distances distance.index ++
          bitsOf (distanceExtra distance.index) distance.offset))

instance (code : BlockCode) (token : Token) : Decidable (token.HasCode code) := by
  cases token <;> unfold HasCode <;> infer_instance

instance (output : List UInt8) (token : Token) : Decidable (token.Fits output) := by
  cases token <;> unfold Fits <;> infer_instance

end Token

def expandTokens (output : List UInt8) (tokens : List Token) : List UInt8 :=
  tokens.foldl (fun output token => output ++ token.bytes output) output

def ValidTokens (code : BlockCode) (output : List UInt8) : List Token → Prop
  | [] => True
  | token :: tokens =>
    token.HasCode code ∧ token.Fits output ∧ ValidTokens code (output ++ token.bytes output) tokens

def tokenBits (code : BlockCode) (tokens : List Token) : List Bool :=
  tokens.flatMap (Token.bits code) ++ codeBits code.literals 256

/-! ## Tables -/

def fixedCode : BlockCode where
  literals := List.replicate 144 8 ++ List.replicate 112 9 ++ List.replicate 24 7 ++
    List.replicate 8 8
  distances := List.replicate 32 5

/-- An item of a row of code lengths: one of them, the last one three to six times more,
or zeros. -/
inductive Item where
  | length (value : Fin 16)
  | again (count : Fin 4)
  | zeros (count : Fin 8)
  | manyZeros (count : Fin 128)
  deriving DecidableEq, Repr

namespace Item

def symbol : Item → Nat
  | length value => value.val
  | again _ => 16
  | zeros _ => 17
  | manyZeros _ => 18

def extraBits : Item → List Bool
  | length _ => []
  | again count => bitsOf 2 count.val
  | zeros count => bitsOf 3 count.val
  | manyZeros count => bitsOf 7 count.val

def bits (code : List Nat) (item : Item) : List Bool := codeBits code item.symbol ++ item.extraBits

def lengths (row : List Nat) : Item → List Nat
  | length value => [value.val]
  | again count => List.replicate (count.val + 3) (row.getLast?.getD 0)
  | zeros count => List.replicate (count.val + 3) 0
  | manyZeros count => List.replicate (count.val + 11) 0

def Fits (row : List Nat) : Item → Prop
  | again _ => row ≠ []
  | _ => True

instance (row : List Nat) (item : Item) : Decidable (item.Fits row) := by
  cases item <;> unfold Fits <;> infer_instance

end Item

def expandItems (row : List Nat) (items : List Item) : List Nat :=
  items.foldl (fun row item => row ++ item.lengths row) row

def ValidItems (code row : List Nat) : List Item → Prop
  | [] => True
  | item :: items =>
    lengthOf code item.symbol ≠ 0 ∧ item.Fits row ∧ ValidItems code (row ++ item.lengths row) items

def sentOrder : List Nat := [16, 17, 18, 0, 8, 7, 9, 6, 10, 5, 11, 4, 12, 3, 13, 2, 14, 1, 15]

def headerCode (sent : List (Fin 8)) : List Nat :=
  (List.range 19).map fun symbol => (sent[sentOrder.idxOf symbol]?.map Fin.val).getD 0

/-- The codes of a block with tables of its own, and how they are sent. -/
structure Tables where
  code : BlockCode
  sent : List (Fin 8)
  items : List Item
  literals_length : 257 ≤ code.literals.length ∧ code.literals.length ≤ 286
  distances_length : 1 ≤ code.distances.length ∧ code.distances.length ≤ 32
  sent_length : 4 ≤ sent.length ∧ sent.length ≤ 19
  header_fits : NotOversubscribed (headerCode sent) 15
  literals_fit : NotOversubscribed code.literals 15
  distances_fit : NotOversubscribed code.distances 15
  endOfBlock : lengthOf code.literals 256 ≠ 0
  items_valid : ValidItems (headerCode sent) [] items
  items_eq : expandItems [] items = code.literals ++ code.distances

def Tables.bits (tables : Tables) : List Bool :=
  bitsOf 5 (tables.code.literals.length - 257) ++ (bitsOf 5 (tables.code.distances.length - 1) ++
    (bitsOf 4 (tables.sent.length - 4) ++
      (tables.sent.flatMap (fun length : Fin 8 => bitsOf 3 length.val) ++
        tables.items.flatMap (Item.bits (headerCode tables.sent)))))

inductive Block where
  | stored (bytes : List UInt8) (short : bytes.length < 2 ^ 16)
  | fixed (tokens : List Token)
  | dynamic (tables : Tables) (tokens : List Token)

namespace Block

def type : Block → Nat
  | stored _ _ => 0
  | fixed _ => 1
  | dynamic _ _ => 2

/-- The bits behind the type of a block, if `start` bits are in front of them. -/
def body (start : Nat) : Block → List Bool
  | stored bytes _ =>
    padding start ++ (bitsOf 16 bytes.length ++ (bitsOf 16 (bytes.length ^^^ 0xffff) ++
      bytesToBits bytes))
  | fixed tokens => tokenBits fixedCode tokens
  | dynamic tables tokens => tables.bits ++ tokenBits tables.code tokens

def bits (final : Bool) (start : Nat) (block : Block) : List Bool :=
  bitsOf 1 final.toNat ++ (bitsOf 2 block.type ++ block.body (start + 3))

def Valid (output : List UInt8) : Block → Prop
  | stored _ _ => True
  | fixed tokens => ValidTokens fixedCode output tokens
  | dynamic tables tokens => ValidTokens tables.code output tokens

def expand (output : List UInt8) : Block → List UInt8
  | stored bytes _ => output ++ bytes
  | fixed tokens => expandTokens output tokens
  | dynamic _ tokens => expandTokens output tokens

end Block

def expandBlocks (output : List UInt8) (blocks : List Block) : List UInt8 :=
  blocks.foldl Block.expand output

def ValidBlocks (output : List UInt8) : List Block → Prop
  | [] => True
  | block :: blocks => block.Valid output ∧ ValidBlocks (block.expand output) blocks

/-- The bits of the blocks behind `start` bits.  The last block is the final one. -/
def blockBits (start : Nat) : List Block → List Bool
  | [] => []
  | block :: blocks =>
    block.bits blocks.isEmpty start ++
      blockBits (start + (block.bits blocks.isEmpty start).length) blocks

/-- The bytes of a stream. -/
def encode (blocks : List Block) : List UInt8 := packBits (blockBits 0 blocks)

/-- What a stream stands for. -/
def expand (blocks : List Block) : List UInt8 := expandBlocks [] blocks

end DeflateFormat
