import Ipxe.Library.Chunks
import Ipxe.Library.Runs
import Ipxe.Model.Gcm

/-!
# Galois/Counter Mode, as it is meant

A key stream that is XORed to the text, and a hash over additional data and ciphertext in the
field of polynomials.  A *run* is any interleaving of calls on contexts that share the cache.
-/

namespace Ipxe.Interface

open Library Model

/-- The product of a block and the polynomial with some coefficients, that of `x^0` first. -/
def polyProduct (key : GcmBlock) : List Bool → GcmBlock
  | [] => 0
  | bit :: bits => (if bit then key else 0) ^^^ gcmMultiplyX (polyProduct key bits)

/-- The coefficients of a block: its bits from the left. -/
def blockBits (block : GcmBlock) : List Bool := (List.range 128).map block.getMsbD

def product (key poly : GcmBlock) : GcmBlock := polyProduct key (blockBits poly)

/-- The hash goes on over some blocks. -/
def ghash (key hash : GcmBlock) (blocks : List Bytes) : GcmBlock :=
  blocks.foldl (fun hash block => product key (hash ^^^ bytesBlock block)) hash

/-- The blocks of a text XORed with those of the key stream behind a counter. -/
def crypt (encrypt : GcmBlock → GcmBlock) : GcmBlock → List Bytes → List Bytes
  | _, [] => []
  | ctr, block :: blocks =>
    gcmXor block (blockBytes (encrypt (gcmCount ctr 1))) ::
      crypt encrypt (gcmCount ctr 1) blocks

inductive GcmCall where
  | setkey (key : Bytes)
  | setiv (iv : Bytes)
  /-- with or without a destination -/
  | encrypt (hasDst : Bool) (src : Bytes)
  | decrypt (hasDst : Bool) (src : Bytes)
  | tag

def GcmCall.isSetkey : GcmCall → Bool
  | .setkey _ => true
  | _ => false

/-- A context, and what was written for it since its initialisation vector was set. -/
structure GcmSession (Raw : Type) where
  context : GcmContext Raw
  data : Bytes := []
  tags : List GcmBlock := []

variable {Raw : Type} (arch : Platform)

/-- The length of a call in bits, as it is counted. -/
def callBits (src : Bytes) : BitVec 64 :=
  BitVec.ofNat 64 (src.length * 8 % 2 ^ arch.sizeBits)

def initialCounter (key : GcmBlock) (iv : Bytes) : GcmBlock :=
  if iv.length = 12 then gcmXorInto iv gcmResetCtr
  else product key (lengthsBlock 0 (callBits arch iv) ^^^ ghash key 0 (chunks 16 iv))

variable (cipher : RawCipher Raw) (context : GcmContext Raw)

/-- The tag of a context: the counter is taken back to where it began. -/
def contextTag : GcmBlock :=
  product context.key (lengthsBlock context.lenAdd context.lenData ^^^ context.hash) ^^^
    cipher.encrypt context.rawCtx
      (gcmCount context.ctr ((-context.lenData / 128#64).setWidth 32))

def hashBlocks (blocks : List Bytes) : GcmContext Raw :=
  { context with hash := ghash context.key context.hash blocks }

/-- Blocks of text: they are hashed as they are encrypted. -/
def textBlocks (encrypting : Bool) (context : GcmContext Raw)
    (blocks : List Bytes) : GcmContext Raw :=
  { context with
    hash := ghash context.key context.hash
      (if encrypting then crypt (cipher.encrypt context.rawCtx) context.ctr blocks else blocks)
    ctr := gcmCount context.ctr (BitVec.ofNat 32 blocks.length) }

/-- What is written for blocks of text. -/
def textData (blocks : List Bytes) : Bytes :=
  (crypt (cipher.encrypt context.rawCtx) context.ctr blocks).flatten

def authenticate (session : GcmSession Raw) (src : Bytes) : GcmSession Raw :=
  let context := session.context
  { session with
    context := hashBlocks
      { context with lenAdd := context.lenAdd + callBits arch src } (chunks 16 src) }

def process (encrypting : Bool) (session : GcmSession Raw) (src : Bytes) : GcmSession Raw :=
  let context := session.context
  { session with
    context := textBlocks cipher encrypting
      { context with lenData := context.lenData + callBits arch src } (chunks 16 src)
    data := session.data ++ textData cipher context (chunks 16 src) }

/-- What a call on a context with a key is meant to do. -/
def modeCall (session : GcmSession Raw) :
    GcmCall → GcmSession Raw
  | .setkey _ => session
  | .setiv iv =>
    { context := { session.context with
        hash := 0, lenAdd := 0, lenData := 0
        ctr := initialCounter arch session.context.key iv } }
  | .encrypt false src | .decrypt false src => authenticate arch session src
  | .encrypt true src => process arch cipher true session src
  | .decrypt true src => process arch cipher false session src
  | .tag => { session with tags := session.tags ++ [contextTag cipher session.context] }

/-- The contexts at all addresses, and the cache they share. -/
structure GcmSystem (Raw : Type) where
  cache : GcmCache
  sessions : ℕ → GcmSession Raw

def gcmCall (address : ℕ) (cache : GcmCache)
    (session : GcmSession Raw) : GcmCall → GcmCache × GcmSession Raw
  | .setkey key =>
    let done := gcmSetkey cipher address cache session.context key
    (done.1, { session with context := done.2.1 })
  | .setiv iv =>
    let done := gcmSetiv arch cipher address cache session.context iv
    (done.1, { context := done.2 })
  | .encrypt hasDst src =>
    let work := gcmEncrypt arch cipher address hasDst
      { cache, context := session.context, dst := session.data } src
    (work.cache, { session with context := work.context, data := work.dst })
  | .decrypt hasDst src =>
    let work := gcmDecrypt arch cipher address hasDst
      { cache, context := session.context, dst := session.data } src
    (work.cache, { session with context := work.context, data := work.dst })
  | .tag =>
    let done := gcmTag cipher address cache session.context
    (done.1, { session with tags := session.tags ++ [done.2] })

def gcmStep (system : GcmSystem Raw) (event : ℕ × GcmCall) : GcmSystem Raw :=
  let done := gcmCall arch cipher event.1 system.cache (system.sessions event.1) event.2
  { cache := done.1, sessions := Function.update system.sessions event.1 done.2 }

/-- Nothing was called yet: the tables are zero, and memory holds something. -/
def bootSystem (contexts : ℕ → GcmContext Raw) : GcmSystem Raw where
  cache := { key := none, tables := { mult := fun _ => 0, reduce := fun _ => 0 } }
  sessions := fun address => { context := contexts address }

def callsAt (address : ℕ) (events : List (ℕ × GcmCall)) : List GcmCall :=
  (events.filter (·.1 = address)).map Prod.snd

/-- A run in which a context is given a key and later an initialisation vector, and then makes
some calls; there may be any calls before, and other contexts may do anything at any time. -/
structure GcmRun (Raw : Type) (key iv : Bytes) (calls : List GcmCall) where
  contexts : ℕ → GcmContext Raw
  events : List (ℕ × GcmCall)
  address : ℕ
  before : List GcmCall
  earlier : List GcmCall
  events_eq : callsAt address events = before ++ .setkey key :: (earlier ++ .setiv iv :: calls)
  earlier_keeps : ∀ call ∈ earlier, call.isSetkey = false

/-- The context in question at the end of a run. -/
def GcmRun.session {key iv : Bytes} {calls : List GcmCall} (arch : Platform)
    (cipher : RawCipher Raw) (gcm : GcmRun Raw key iv calls) : GcmSession Raw :=
  (run (gcmStep arch cipher) (bootSystem gcm.contexts) gcm.events).sessions gcm.address

/-- Data that is cut into the sources of calls, at multiples of 16 bytes. -/
def CutInto (data : Bytes) (pieces : List Bytes) : Prop :=
  pieces.flatten = data ∧ ∀ piece ∈ pieces.dropLast, 16 ∣ piece.length

def sealing (additional text : List Bytes) : List GcmCall :=
  additional.map (.encrypt false) ++ text.map (.encrypt true) ++ [.tag]

def opening (additional text : List Bytes) : List GcmCall :=
  additional.map (.decrypt false) ++ text.map (.decrypt true) ++ [.tag]

/-- Additional data and a text that are in memory. -/
structure GcmInput (arch : Platform) where
  additional : Bytes
  text : Bytes
  additional_lt : additional.length < 2 ^ arch.sizeBits
  text_lt : text.length < 2 ^ arch.sizeBits

/-- **The round trip**: for every cipher, key and initialisation vector and for all ways to cut
the data, what is encrypted in one run is decrypted in another, and the tags are the tag of a
run with one call for the additional data and one for the text. -/
def RoundTrips (input : GcmInput arch) : Prop :=
  ∀ (Raw : Type) (cipher : RawCipher Raw) (key iv : Bytes) (rawCtx : Raw),
    cipher.setkey key = .ok rawCtx →
    ∀ additional text, CutInto input.additional additional → CutInto input.text text →
    ∀ (sealed : GcmRun Raw key iv (sealing additional text)) (additional' text'),
    CutInto input.additional additional' → CutInto (sealed.session arch cipher).data text' →
    ∀ (opened : GcmRun Raw key iv (opening additional' text'))
      (whole : GcmRun Raw key iv (sealing [input.additional] [input.text])),
    (opened.session arch cipher).data = input.text ∧
      ∃ tag, (sealed.session arch cipher).tags = [tag] ∧
        (opened.session arch cipher).tags = [tag] ∧
        (whole.session arch cipher).tags = [tag]

/-- Whether the lengths in bits are right: they are counted modulo 2^64, but computed from
lengths in bytes in a `size_t`. -/
def LengthsFit (input : GcmInput arch) : Prop :=
  arch.sizeBits = 64 ∨
    input.additional.length * 8 < 2 ^ arch.sizeBits ∧ input.text.length * 8 < 2 ^ arch.sizeBits

end Ipxe.Interface
