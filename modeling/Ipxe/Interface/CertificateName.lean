import Ipxe.Library.TagLengthValue
import Ipxe.Model.X509

/-!
# What it means for a certificate to be issued for a name

Stated on the bytes of the certificate, with the exact reading of the list of
alternative names: its entries are those of `tlvObjects tlvLength`, and the list ends
where its first malformed entry begins.
-/

namespace Ipxe.Interface

open Library Model

/-- Equality up to the case of ASCII letters. -/
def SameText (text name : Bytes) : Prop := text.map toupper = name.map toupper

/-- A host name in a certificate covers a name: it is the name, or it is `*.R` and the
name is one label without a dot, a dot, and `R`. -/
def HostMatches (host name : Bytes) : Prop :=
  SameText host name ∨
  ∃ suffix label rest, host = 0x2a :: 0x2e :: suffix ∧ name = label ++ 0x2e :: rest ∧
    0x2e ∉ label ∧ SameText suffix rest

/-- An alternative name, as a tag and its content, covers a name: it is a dNSName that
covers it, or an iPAddress with the bytes of the address that the name denotes. -/
def AltNameMatches (env : SocketEnv) (altName : UInt8 × Bytes) (name : Bytes) : Prop :=
  (altName.1 = 0x82 ∧ HostMatches altName.2 name) ∨
  (altName.1 = 0x87 ∧ ∃ sa, sockAton env name = some sa ∧ sa.address = altName.2)

def IssuedFor (env : SocketEnv) (cert : X509Certificate) (name : Bytes) : Prop :=
  HostMatches cert.subject.commonName name ∨
  ∃ altName ∈ tlvObjects tlvLength cert.extensions.altNames, AltNameMatches env altName name

end Ipxe.Interface
