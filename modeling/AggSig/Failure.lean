/-
  Why an operation fails.

  A failure is a cause with its data.  Every cause has a `category`: it is one of the library's own
  error kinds, which form a small hierarchy, or a misuse that the caller made and that no input from
  elsewhere can bring about.  `Failure.message` puts a cause in words; the misuses that come without
  words have none.
-/
import AggSig.Family
import AggSig.Key.Document
import AggSig.Text.Multibase

namespace AggSig

/-! ## Kinds -/

/-- The kinds of error that bad input causes. -/
inductive ErrorKind
  | fieldDecode
  | emptyAggregation
  | keyDerivation
  | pointConversion
  | invalidPointEncoding
  | pointNotOnCurve
  | pointNotInSubgroup
  | identityPoint
  | parseFromString
  | parseFromBytes
  | inputLengthMismatch
  | invalidLength
  deriving DecidableEq

/-- The misuses that a caller alone answers for. -/
inductive Misuse
  | wrongType
  | badValue
  | badAttribute
  | badIndex
  | divisionByZero
  | overflow
  | outOfMemory
  | missingFile
  | isDirectory
  | notDirectory
  | alreadyExists
  | nameTooLong
  deriving DecidableEq

/-- What kind of failure it is. -/
inductive Category
  | error (kind : ErrorKind)
  | misuse (misuse : Misuse)
  deriving DecidableEq

/-- The name of an error kind. -/
def ErrorKind.name : ErrorKind → String
  | .fieldDecode => "FieldDecodeError"
  | .emptyAggregation => "EmptyAggregationError"
  | .keyDerivation => "KeyDerivationError"
  | .pointConversion => "PointConversionError"
  | .invalidPointEncoding => "InvalidPointEncodingError"
  | .pointNotOnCurve => "PointNotOnCurveError"
  | .pointNotInSubgroup => "PointNotInSubgroupError"
  | .identityPoint => "IdentityPointError"
  | .parseFromString => "ParseFromStringError"
  | .parseFromBytes => "ParseFromBytesError"
  | .inputLengthMismatch => "InputLengthMismatchError"
  | .invalidLength => "InvalidLengthError"

/-- The kinds that an error kind refines, nearest first. -/
def ErrorKind.parents : ErrorKind → List ErrorKind
  | .invalidPointEncoding | .pointNotOnCurve | .pointNotInSubgroup | .identityPoint =>
    [.pointConversion]
  | .invalidLength => [.inputLengthMismatch, .parseFromBytes]
  | _ => []

/-- Whether an error of one kind is also one of the other. -/
def ErrorKind.isA (kind parent : ErrorKind) : Bool := kind = parent || parent ∈ kind.parents

/-- Every error kind. -/
def ErrorKind.all : List ErrorKind :=
  [.fieldDecode, .emptyAggregation, .keyDerivation, .pointConversion, .invalidPointEncoding,
   .pointNotOnCurve, .pointNotInSubgroup, .identityPoint, .parseFromString, .parseFromBytes,
   .inputLengthMismatch, .invalidLength]

/-- The name of the kind that every error kind refines in the end. -/
def rootErrorName : String := "BlsError"

/-- The names of a kind and of all it refines, most special first, given its name. -/
def ErrorKind.lineage? (name : String) : Option (List String) :=
  if name = rootErrorName then some [rootErrorName]
  else
    (all.find? fun kind => kind.name = name).map fun kind =>
      (kind :: kind.parents).map ErrorKind.name ++ [rootErrorName]

/-! ## Causes -/

/-- The checks over lists that name themselves in their failures. -/
inductive ListCheck
  | distinct
  | distinctAggregated
  | shardedDistinct
  | shardedDistinctAggregated
  | batch
  deriving DecidableEq

/-- The name of a check over lists. -/
def ListCheck.name : ListCheck → String
  | .distinct => "verify_distinct"
  | .distinctAggregated => "verify_distinct_aggregated"
  | .shardedDistinct => "par_verify_distinct"
  | .shardedDistinctAggregated => "par_verify_distinct_aggregated"
  | .batch => "batch_verify"

/-- What a list is compared with a list of public keys. -/
inductive Companion
  | messages
  | signatures
  | proofs
  deriving DecidableEq

/-- The plural name of what comes with the keys. -/
def Companion.name : Companion → String
  | .messages => "messages"
  | .signatures => "signatures"
  | .proofs => "proofs"

/-- Things whose width in bytes is fixed. -/
inductive Sized
  | wire (family : Family) (form : Form)
  | element (family : Family)
  | point (side : Side) (form : Form)
  | secretKey
  | keypair
  deriving DecidableEq

/-- The width of a secret key in bytes. -/
def secretKeyWidth : Nat := 32

/-- The name of a point encoding. -/
def pointName (side : Side) (form : Form) : String :=
  side.name ++ " " ++ form.name ++ " point"

/-- The name of a sized thing. -/
def Sized.name : Sized → String
  | .wire family form => family.wireName form
  | .element family => family.elementName
  | .point side form => pointName side form
  | .secretKey => "Secret key"
  | .keypair => "Keypair"

/-- The width of a sized thing; an element may also come in its affine width. -/
def Sized.width : Sized → Nat
  | .wire family form => family.width form
  | .element family => family.width .affine
  | .point side form => side.width form
  | .secretKey => secretKeyWidth
  | .keypair => keypairWidth

/-- The widths in words. -/
def Sized.widths : Sized → String
  | .element family =>
    toString (family.width .affine) ++ " or " ++ toString (family.width .compressed)
  | sized => toString sized.width

/-- The three flag bits at the start of an encoded point. -/
inductive Flag
  | compression
  | infinity
  | sort
  deriving DecidableEq

/-- Why the flags and coordinates of a compressed point give no point. -/
inductive Decompression
  | notCompressed
  | infinityExpected (flag : Bool)
  | signedInfinity
  | aboveModulus (value : Nat)
  | noPoint
  /-- The encoding was given as a list with a member that is no byte. -/
  | badMember
  deriving DecidableEq

/-- The reason in words. -/
def Decompression.message (side : Side) : Decompression → String
  | .notCompressed => "c_flag should be 1"
  | .infinityExpected flag => "b_flag should be " ++ (if flag then "1" else "0")
  | .signedInfinity => "a point at infinity should have a_flag == 0"
  | .aboveModulus value =>
    (match side with
      | .g1 => "Point value"
      | .g2 => "x1 value") ++
      " should be less than field modulus. Got " ++ toString value
  | .noPoint =>
    match side with
    | .g1 => "The given point is not on G1: y**2 = x**3 + b"
    | .g2 => "Failed to find a modular squareroot"
  | .badMember => "bytes must be in range(0, 256)"

/-- What a coordinate can be combined with: one of the prime field is compared with and multiplied by
    its kind and by integers, one of the extension is compared with its kind only. -/
inductive Operand
  | prime
  | extension
  | factor
  deriving DecidableEq

/-- The operand in words. -/
def Operand.name : Operand → String
  | .prime => "an int or FQ object"
  | .extension => "an FQP object"
  | .factor => "an int or FQP object"

/-- Why an operation fails. -/
inductive Failure
  /-- A number is no secret key. -/
  | secretOutOfRange
  /-- The zero key has no public key. -/
  | secretZero
  /-- A sum of no elements was asked for. -/
  | nothingToAggregate (family : Family)
  /-- A check over lists got none. -/
  | emptyLists (check : ListCheck)
  /-- A check over lists got lists of different lengths. -/
  | lengthsDiffer (check : ListCheck) (keys : Nat) (companion : Companion) (others : Nat)
  /-- Input keying material is too short. -/
  | shortKeyMaterial (length : Nat)
  /-- An external signer failed. -/
  | signerFailed (reason : String)
  /-- An external signer gave nothing but zeros. -/
  | signerEmpty
  /-- A byte string has the wrong width. -/
  | wrongWidth (sized : Sized) (actual : Nat)
  /-- An affine encoding has a flag set that it must not have. -/
  | badFlag (side : Side) (flag : Flag)
  /-- A coordinate is not below the field modulus. -/
  | coordinateTooLarge (side : Side) (form : Form)
  /-- A compressed encoding gives no point. -/
  | notDecompressed (side : Side) (reason : Decompression)
  | offCurve (side : Side) (form : Form)
  | outsideSubgroup (side : Side) (form : Form)
  /-- The identity came where it is not allowed. -/
  | unexpectedIdentity (side : Side) (form : Form)
  /-- A text is no multibase text. -/
  | unreadableText (family : Family) (form : Form) (fault : Multibase.Fault)
  /-- A text stands for a byte string of the wrong width. -/
  | wrongTextWidth (family : Family) (form : Form) (actual : Nat)
  /-- The public key in a keypair is not that of its secret key. -/
  | keysDisagree
  /-- A document is not the list of bytes of a keypair. -/
  | badDocument (issues : List Document.Issue)
  /-- A value of another kind came where an element of a family belongs. -/
  | wrongFamily (family : Family) (typeName : String)
  /-- A wire value was to be made of something that is no byte string. -/
  | notBytes (family : Family) (form : Form) (typeName : String)
  /-- A value cannot be changed. -/
  | immutableValue (typeName : String)
  /-- A value lacks what is asked of it: it is no secret key, no stream, or no coordinate. -/
  | unsuitable
  /-- A pairing was asked for at a point that is not on its curve. -/
  | pairingOffCurve (side : Side)
  /-- A point that is not on the second curve was to be compressed. -/
  | compressOffCurve
  /-- A coordinate was combined with something of another kind, whose class is given. -/
  | foreignOperand (expected : Operand) (className : String)
  /-- A value cannot be taken as bytes, as a list or as a number. -/
  | inconvertible
  /-- A value has more or fewer members than it is taken apart into. -/
  | wrongCount
  /-- A value has no member at an index. -/
  | noMember
  /-- A number is no byte, or no length. -/
  | byteOutOfRange
  /-- A number is too large to be a length. -/
  | lengthOverflow
  /-- A number is a length, but no memory is that large. -/
  | memoryExhausted
  | divisionByZero
  /-- A file operation failed. -/
  | file (misuse : Misuse)

namespace Failure

/-- The kind of a failure. -/
def category : Failure → Category
  | secretOutOfRange => .error .fieldDecode
  | secretZero | shortKeyMaterial _ | signerFailed _ | signerEmpty =>
    .error .keyDerivation
  | nothingToAggregate _ | emptyLists _ => .error .emptyAggregation
  | lengthsDiffer .. => .error .inputLengthMismatch
  | wrongWidth .. => .error .invalidLength
  | badFlag .. | coordinateTooLarge .. => .error .invalidPointEncoding
  | notDecompressed .. => .error .pointConversion
  | offCurve .. => .error .pointNotOnCurve
  | outsideSubgroup .. => .error .pointNotInSubgroup
  | unexpectedIdentity .. => .error .identityPoint
  | unreadableText .. | wrongTextWidth .. => .error .parseFromString
  | keysDisagree | badDocument _ => .error .parseFromBytes
  | wrongFamily .. | notBytes .. | foreignOperand .. | inconvertible => .misuse .wrongType
  | immutableValue _ | unsuitable => .misuse .badAttribute
  | pairingOffCurve _ | compressOffCurve | byteOutOfRange | wrongCount => .misuse .badValue
  | noMember => .misuse .badIndex
  | lengthOverflow => .misuse .overflow
  | memoryExhausted => .misuse .outOfMemory
  | divisionByZero => .misuse .divisionByZero
  | file misuse => .misuse misuse

/-- Whether the failure is of the library's own kinds, or of one that refines the given kind. -/
def isError (failure : Failure) (kind : ErrorKind) : Bool :=
  match failure.category with
  | .error k => k.isA kind
  | .misuse _ => false

/-- The failure in words; nothing for a misuse that comes without words. -/
def message : Failure → Option String
  | secretOutOfRange => some "Secret key scalar is outside [0, group order)"
  | secretZero => some "Secret key is zero; its public key would be the identity"
  | nothingToAggregate family =>
    some ("Cannot aggregate an empty list of " ++ family.elementName)
  | emptyLists .batch => some (ListCheck.batch.name ++ ": no proofs given")
  | emptyLists check => some (check.name ++ ": no public keys given")
  | lengthsDiffer check keys companion others =>
    some (check.name ++ ": got " ++ toString keys ++ " public keys but " ++ toString others ++ " " ++
      companion.name)
  | shortKeyMaterial length =>
    some ("Input keying material must be at least 32 bytes, got " ++ toString length)
  | signerFailed reason => some ("Signer failed to sign the derivation seed: " ++ reason)
  | signerEmpty => some "Signer returned an empty signature"
  | wrongWidth sized actual =>
    some (sized.name ++ " must be " ++ sized.widths ++ " bytes, got " ++ toString actual)
  | badFlag side .compression =>
    some (pointName side .affine ++ ": compression flag set on an affine encoding")
  | badFlag side .sort => some (pointName side .affine ++ ": sort flag set on an affine encoding")
  | badFlag side .infinity =>
    some (pointName side .affine ++ ": infinity flag set with non-zero coordinates")
  | coordinateTooLarge side form =>
    some (pointName side form ++ ": coordinate is not below the field modulus")
  | notDecompressed side reason => some (pointName side .compressed ++ ": " ++ reason.message side)
  | offCurve side form => some (pointName side form ++ " is not on the curve")
  | outsideSubgroup side form => some (pointName side form ++ " is not in the prime-order subgroup")
  | unexpectedIdentity side form => some (pointName side form ++ " is the identity element")
  | unreadableText family form fault =>
    some ("Invalid " ++ family.wireName form ++ " string: " ++ fault.message)
  | wrongTextWidth family form actual =>
    some (family.wireName form ++ " string decodes to " ++ toString actual ++ " bytes, expected " ++
      toString (family.width form))
  | keysDisagree => some "Keypair public key does not match its secret key"
  | badDocument _ => some "Invalid keypair JSON"
  | wrongFamily family typeName =>
    some ("Expected " ++ family.elementName ++ ", " ++ family.wireName .affine ++ " or " ++
      family.wireName .compressed ++ ", got " ++ typeName)
  | notBytes family form typeName =>
    some (family.wireName form ++ " must be built from bytes, got " ++ typeName)
  | immutableValue typeName => some (typeName ++ " is immutable")
  | pairingOffCurve .g2 => some "Invalid input - point Q is not on the correct curve"
  | pairingOffCurve .g1 => some "Invalid input - point P is not on the correct curves"
  | compressOffCurve => some "The given point is not on the twisted curve over FQ**2"
  | foreignOperand expected className =>
    some ("Expected " ++ expected.name ++ ", but got object of type <class '" ++ className ++ "'>")
  | unsuitable | inconvertible | byteOutOfRange | wrongCount | noMember | lengthOverflow
  | memoryExhausted | divisionByZero | file _ => none

end Failure

end AggSig
