/-
The validated archive model, from `model.rs`.
-/
import Unpackio.Graph

namespace Unpackio

structure ArchiveVersion where
  major : UInt8
  minor : UInt8
  deriving DecidableEq, Repr

inductive NextHeaderKind where
  | header
  | encodedHeader
  deriving DecidableEq, Repr

/-- A signature and next-header range that passed its checks.  Offsets are
absolute in the supplied bytes. -/
structure HeaderEnvelope where
  signatureOffset : Nat
  version : ArchiveVersion
  nextHeaderOffset : Nat
  nextHeaderSize : Nat
  nextHeaderCrc : UInt32
  nextHeaderKind : NextHeaderKind
  deriving DecidableEq, Repr

structure StoredProperty where
  id : UInt8
  data : List UInt8
  deriving DecidableEq, Repr

structure ExternalProperty where
  propertyId : UInt8
  dataIndex : Nat
  definedEntries : List Bool
  deriving DecidableEq, Repr

/-- Where the bytes of a member are, with their size and digest where known. -/
structure FileStream where
  folderIndex : Nat
  substreamIndex : Nat
  size : Option Nat
  crc : Option UInt32
  deriving DecidableEq, Repr

inductive EntryKind where
  | file
  | directory
  | symbolicLink
  | antiItem
  deriving DecidableEq, Repr

structure FileEntry where
  rawName : Option (List UInt16)
  hasStream : Bool
  emptyFile : Bool
  antiItem : Bool
  creationTime : Option Nat
  accessTime : Option Nat
  modificationTime : Option Nat
  windowsAttributes : Option UInt32
  startPosition : Option Nat
  stream : Option FileStream
  deriving DecidableEq, Repr

namespace FileEntry

def unixMode (entry : FileEntry) : Option UInt32 :=
  match entry.windowsAttributes with
  | some attributes => if attributes &&& 0x8000 ≠ 0 then some (attributes >>> 16) else none
  | none => none

def isSymlink (entry : FileEntry) : Bool :=
  match entry.unixMode with
  | some mode => mode &&& 0o170000 == 0o120000
  | none => false

def kind (entry : FileEntry) : EntryKind :=
  if entry.antiItem then .antiItem
  else if entry.isSymlink then .symbolicLink
  else if entry.hasStream || entry.emptyFile then .file
  else .directory

def size (entry : FileEntry) : Option Nat :=
  match entry.stream with
  | some stream => stream.size
  | none => if entry.emptyFile && !entry.antiItem then some 0 else none

def crc32 (entry : FileEntry) : Option UInt32 := entry.stream.bind FileStream.crc

end FileEntry

structure FilesInfo where
  entries : List FileEntry
  externalProperties : List ExternalProperty
  unknownProperties : List StoredProperty
  deriving DecidableEq, Repr

structure PackStream where
  offset : Nat
  size : Option Nat
  crc : Option UInt32
  deriving DecidableEq, Repr

structure Coder where
  methodId : List UInt8
  inputStart : Nat
  inputCount : Nat
  outputStart : Nat
  outputCount : Nat
  properties : List UInt8
  dictionaryBytes : Option Nat
  deriving DecidableEq, Repr

structure Substream where
  size : Option Nat
  crc : Option UInt32
  deriving DecidableEq, Repr

structure Folder where
  coders : List Coder
  bindPairs : List BindPair
  packedInputIndices : List Nat
  unpackSizes : List (Option Nat)
  rootOutputIndex : Nat
  topologicalCoderOrder : List Nat
  crc : Option UInt32
  substreams : List Substream
  dictionaryBytes : Nat
  firstPackStream : Nat
  deriving DecidableEq, Repr

structure StreamsInfo where
  packPosition : Nat
  packStreams : List PackStream
  folders : List Folder
  substreamCount : Nat
  deriving DecidableEq, Repr

structure ArchiveHeader where
  archiveProperties : List StoredProperty
  additionalStreams : Option StreamsInfo
  mainStreams : Option StreamsInfo
  files : Option FilesInfo
  deriving DecidableEq, Repr

structure PendingExternalFolderHeader where
  additionalStreams : StreamsInfo
  dataIndex : Nat
  headerBytes : List UInt8
  deriving DecidableEq, Repr

inductive ParsedNextHeader where
  | header (header : ArchiveHeader)
  | encodedHeader (streams : StreamsInfo)
  | pendingExternalFolders (pending : PendingExternalFolderHeader)
  deriving DecidableEq, Repr

structure ParsedArchive where
  envelope : HeaderEnvelope
  nextHeader : ParsedNextHeader
  deriving DecidableEq, Repr

end Unpackio
