import Ipxe.Analysis.Asn1Objects
import Ipxe.Interface.CertificateName
import Ipxe.Library.Procedure

/-!
# Certificate names are matched exactly

The comparison of names is exact (`x509CheckDnsname_iff`, `x509CheckIpaddress_iff`), and so is the
end of the list of names, except that a length of `2 ^ 32` or more is read modulo `2 ^ 32`.
-/

namespace Ipxe.Analysis

open Library Model Interface List

variable {name : Bytes} {env : SocketEnv}

theorem strncasecmp_iff {text : Bytes} (hlen : name.length = text.length) (hnul : 0 ∉ name) :
    strncasecmp name text text.length = true ↔ SameText text name := by
  induction text generalizing name with
  | nil =>
    have hname : name = [] := length_eq_zero_iff.1 hlen
    simp [hname, strncasecmp, SameText]
  | cons character text ih =>
    match name, hlen with
    | first :: name, hlen =>
      have hfirst : ¬ first = 0 := fun h => hnul (h ▸ mem_cons_self)
      have hrest := @ih name (by simpa using hlen) (fun h => hnul (mem_cons_of_mem _ h))
      by_cases hsame : toupper first = toupper character
      · simp [strncasecmp, hfirst, hrest, SameText, hsame]
      · simp [strncasecmp, SameText, hsame, Ne.symm hsame]

theorem x509CompareNames_iff {text : Bytes} (hnul : 0 ∉ name) :
    x509CompareNames text name = .ok () ↔ SameText text name := by
  unfold x509CompareNames
  by_cases hlen : name.length = text.length
  · rw [← strncasecmp_iff hlen hnul]
    simp [hlen]
  · have hdiffer : ¬ SameText text name := fun h => hlen (by
      have := congrArg List.length h
      simpa using this.symm)
    simp [hlen, hdiffer]

theorem eq_of_toupper {character mark : UInt8} (hmark : mark.toNat < 0x41)
    (h : toupper mark = toupper character) : character = mark := by
  have hsame : toupper mark = mark := by
    have : ¬ islower mark = true := by simp [islower, UInt8.le_iff_toNat_le]; omega
    rw [toupper, if_neg this]
  rw [hsame] at h
  unfold toupper at h
  split_ifs at h with hlower
  · simp only [islower, UInt8.le_iff_toNat_le] at hlower
    have hnat := congrArg UInt8.toNat h
    rw [UInt8.toNat_sub_of_le _ _ (by rw [UInt8.le_iff_toNat_le]; simp at hlower ⊢; omega)] at hnat
    simp at hlower hnat
    omega
  · exact h.symm

theorem x509CheckDnsname_iff {host : Bytes} (hnul : 0 ∉ name) :
    x509CheckDnsname host name = .ok () ↔ HostMatches host name := by
  by_cases hwild : host.take 2 = [0x2a, 0x2e]
  · obtain ⟨suffix, rfl⟩ : ∃ suffix, host = 0x2a :: 0x2e :: suffix := by
      refine ⟨host.drop 2, ?_⟩
      calc host = host.take 2 ++ host.drop 2 := (take_append_drop 2 host).symm
        _ = 0x2a :: 0x2e :: host.drop 2 := by rw [hwild]; rfl
    have hcompare : x509CheckDnsname (0x2a :: 0x2e :: suffix) name = .ok () ↔
        ∃ label rest, name = label ++ 0x2e :: rest ∧ 0x2e ∉ label ∧ SameText suffix rest := by
      rw [x509CheckDnsname, if_pos hwild]
      cases hdot : strchr name 0x2e with
      | none =>
        refine ⟨nofun, ?_⟩
        rintro ⟨label, rest, hname, hlabel, -⟩
        rw [strchr_iff.2 ⟨label, rest, hname, hlabel, rfl⟩] at hdot
        cases hdot
      | some dot =>
        obtain ⟨label, rest, rfl, hlabel, rfl⟩ := strchr_iff.1 hdot
        have hrest : 0 ∉ rest := fun h => hnul (by simp [h])
        simp only [tail_cons]
        rw [x509CompareNames_iff hrest]
        constructor
        · intro h
          exact ⟨label, rest, rfl, hlabel, h⟩
        · rintro ⟨label', rest', hname, hlabel', h⟩
          have hdot' := strchr_iff.2 ⟨label', rest', hname, hlabel', rfl⟩
          rw [hdot'] at hdot
          cases hdot
          exact h
    rw [hcompare]
    constructor
    · rintro ⟨label, rest, hname, hlabel, h⟩
      exact .inr ⟨suffix, label, rest, rfl, hname, hlabel, h⟩
    · rintro (hsame | ⟨suffix', label, rest, hhost, hname, hlabel, h⟩)
      · -- a name that is itself of the form `*.R` has the label `*`
        obtain ⟨first, name, rfl, hfirst, hsame⟩ := map_eq_cons_iff.1 hsame.symm
        obtain ⟨second, rest, rfl, hsecond, hsame⟩ := map_eq_cons_iff.1 hsame
        rw [eq_of_toupper (by decide) hfirst.symm, eq_of_toupper (by decide) hsecond.symm]
        exact ⟨[0x2a], rest, rfl, by decide, hsame.symm⟩
      · cases hhost
        exact ⟨label, rest, hname, hlabel, h⟩
  · rw [x509CheckDnsname, if_neg hwild, x509CompareNames_iff hnul]
    refine ⟨.inl, ?_⟩
    rintro (hsame | ⟨suffix, label, rest, rfl, -⟩)
    · exact hsame
    · exact absurd rfl hwild

theorem x509CheckIpaddress_iff {raw : Bytes} :
    x509CheckIpaddress env raw name = .ok () ↔
      ∃ sa, sockAton env name = some sa ∧ sa.address = raw := by
  unfold x509CheckIpaddress
  cases haton : sockAton env name with
  | none => split_ifs <;> simp
  | some sa =>
    have hlen := sockAton_length haton
    constructor
    · intro h
      simp only at h
      split_ifs at h with hsize hfour hfamily haddress hfamily haddress
      all_goals exact ⟨sa, rfl, not_not.1 haddress⟩
    · rintro ⟨_, hsa, rfl⟩
      cases hsa
      cases hfamily : sa.family with
      | inet => simp [hfamily, hlen.1 hfamily]
      | inet6 => simp [hfamily, hlen.2 hfamily]

/-- One entry is checked exactly, if there is one. -/
theorem x509CheckAltName_iff {raw content rest : Bytes} {tag : UInt8}
    (hobject : tlvObject asn1Len raw = some (tag, content, rest)) (hlen : raw.length < 2 ^ 31)
    (hnul : 0 ∉ name) :
    x509CheckAltName env raw name = .ok () ↔ AltNameMatches env (tag, content) name := by
  obtain ⟨htype, henter, -⟩ := asn1_of_tlvObject hobject hlen
  simp only [x509CheckAltName, htype, henter, AltNameMatches]
  split_ifs with hdns hip
  · simp [x509CheckDnsname_iff hnul, show tag = 0x82 from hdns]
  · simp [x509CheckIpaddress_iff, show tag = 0x87 from hip]
  · simp [show ¬ tag = 0x82 from hdns, show ¬ tag = 0x87 from hip]

theorem x509CheckAltName_malformed {raw : Bytes} (hobject : tlvObject asn1Len raw = none)
    (hname : name ≠ []) :
    x509CheckAltName env raw name ≠ .ok () := by
  have henter := (asn1_of_no_tlvObject hobject).1
  simp only [x509CheckAltName, henter]
  split_ifs
  · simp [x509CheckDnsname, x509CompareNames, hname]
  · simp [x509CheckIpaddress]
  · simp

/-- **The loop over the alternative names** finds a name exactly when one of
the objects that it sees matches. -/
theorem asn1Walk_altNames (hname : name ≠ []) (hnul : 0 ∉ name) (cursor : Asn1Cursor)
    (hlen : cursor.length < 2 ^ 31) :
    (∃ altName ∈ asn1Walk cursor, x509CheckAltName env altName name = .ok ()) ↔
      ∃ altName ∈ tlvObjects asn1Len cursor, AltNameMatches env altName name := by
  induction cursor using (tlv_induction asn1Len) with
  | stop cursor hstop =>
    have hcheck : x509CheckAltName env cursor name ≠ .ok () :=
      x509CheckAltName_malformed hstop hname
    rw [tlvObjects_stop hstop]
    by_cases hnil : cursor = []
    · simp [hnil]
    · rw [asn1Walk_cons hnil, (asn1_of_no_tlvObject hstop).2]
      simp [hcheck]
  | next cursor tag content rest hnext ih =>
    have hshorter := tlvObject_length hnext
    have hnil : cursor ≠ [] := length_pos_iff.1 (by omega)
    have hcheck : x509CheckAltName env cursor name = .ok () ↔
        AltNameMatches env (tag, content) name := x509CheckAltName_iff hnext hlen hnul
    rw [asn1Walk_cons hnil, (asn1_of_tlvObject hnext hlen).2.2, tlvObjects_next hnext]
    simp only [exists_mem_cons_iff, hcheck, ih (by omega)]

/-- The whole check, in terms of the objects that the loop sees. -/
theorem x509CheckName_iff {cert : X509Certificate} {name : CString} (hname : name.chars ≠ [])
    (hlen : cert.extensions.altNames.length < 2 ^ 31) :
    x509CheckName env cert name = .ok () ↔
      HostMatches cert.subject.commonName name.chars ∨
      ∃ altName ∈ tlvObjects asn1Len cert.extensions.altNames,
        AltNameMatches env altName name.chars := by
  rw [← x509CheckDnsname_iff name.noNul, ← asn1Walk_altNames hname name.noNul _ hlen]
  unfold x509CheckName
  split_ifs with hcommon halt
  · simp [hcommon]
  · simp only [any_eq_true, decide_eq_true_eq] at halt
    simp [halt]
  · simp only [any_eq_true, decide_eq_true_eq] at halt
    simp [hcommon, halt]

/-- **Name matching.**  The check ends, and it accepts the names that the certificate was issued for
and no others, exactly when none is found at or behind the first malformed alternative name by
reading lengths modulo `2 ^ 32` (or the certificate was issued for the name anyway). -/
theorem x509CheckName_exact_iff (env : SocketEnv) (cert : X509Certificate) (name : CString)
    (hname : name.chars ≠ []) (hlen : cert.extensions.altNames.length < 2 ^ 31) :
    (∃ turns, (fun altName => (asn1SkipAny altName).2)^[turns] cert.extensions.altNames = []) ∧
    ((x509CheckName env cert name = .ok () ↔ IssuedFor env cert name.chars) ↔
      IssuedFor env cert name.chars ∨
      ∀ altName ∈ tlvObjects asn1Len (tlvRest tlvLength cert.extensions.altNames),
        ¬ AltNameMatches env altName name.chars) := by
  refine ⟨?_, ?_⟩
  · obtain ⟨turns, -, hend⟩ := asn1Walk_ends cert.extensions.altNames
    exact ⟨turns, hend⟩
  · have hobjects := tlvObjects_of_agree asn1Len_of_lt (hlen.trans (by norm_num))
    rw [x509CheckName_iff hname hlen, hobjects]
    have hnone : (∀ altName ∈ tlvObjects asn1Len (tlvRest tlvLength cert.extensions.altNames),
        ¬ AltNameMatches env altName name.chars) ↔
        ¬ ∃ altName ∈ tlvObjects asn1Len (tlvRest tlvLength cert.extensions.altNames),
          AltNameMatches env altName name.chars := by simp
    rw [hnone]
    simp only [mem_append, or_and_right, exists_or, IssuedFor]
    rw [← or_assoc, or_iff_left_iff_imp, imp_iff_or_not]

def bothFamilies : SocketEnv where
  ulongBits := 64
  strdup := true
  findNetdev := fun _ => false
  converters := [.inet, .inet6]

def certificateFor (altNames : Asn1Cursor) : X509Certificate where
  tbs := []
  version := 2
  serial := []
  signatureAlgorithm := { name := "", oid := [] }
  issuer := []
  validity := ⟨0, 0⟩
  subject := ⟨[], [], ⟨[], { name := "", oid := [] }, ⟨[], 0⟩⟩⟩
  extensions := { altNames := altNames }
  raw := []
  signature := ⟨{ name := "", oid := [] }, ⟨[], 0⟩⟩

def nameAB : CString := ⟨[0x61, 0x2e, 0x62], by decide⟩

-- dNSName `*.b`
theorem x509CheckName_exact_wildcard :
    (x509CheckName bothFamilies (certificateFor [0x82, 3, 0x2a, 0x2e, 0x62]) nameAB = .ok () ↔
      IssuedFor bothFamilies (certificateFor [0x82, 3, 0x2a, 0x2e, 0x62]) nameAB.chars) := by
  have hobject : tlvObject tlvLength [0x82, 3, 0x2a, 0x2e, 0x62] =
      some (0x82, [0x2a, 0x2e, 0x62], []) := by decide
  refine (x509CheckName_exact_iff bothFamilies (certificateFor [0x82, 3, 0x2a, 0x2e, 0x62]) nameAB
    (by decide) (by decide)).2.2 (Or.inl (Or.inr ?_))
  refine ⟨(0x82, [0x2a, 0x2e, 0x62]), ?_, Or.inl ⟨rfl, Or.inr ?_⟩⟩
  · rw [certificateFor, tlvObjects_next hobject]
    exact mem_cons_self
  · exact ⟨[0x62], [0x61], [0x62], rfl, rfl, by decide, rfl⟩

/-- A single dNSName whose length field denotes `2 ^ 32 + 3`, in a list of ten bytes: it
overruns the list, but is read as a name of three bytes. -/
theorem overlongName_accepted :
    x509CheckName bothFamilies
      (certificateFor [0x82, 0x85, 1, 0, 0, 0, 3, 0x61, 0x2e, 0x62]) nameAB = .ok () ∧
    ¬ IssuedFor bothFamilies
      (certificateFor [0x82, 0x85, 1, 0, 0, 0, 3, 0x61, 0x2e, 0x62]) nameAB.chars := by
  have hobject : tlvObject tlvLength [0x82, 0x85, 1, 0, 0, 0, 3, 0x61, 0x2e, 0x62] = none := by
    decide
  refine ⟨by decide, ?_⟩
  rintro (hhost | ⟨altName, haltName, -⟩)
  · simp [HostMatches, SameText, certificateFor, nameAB] at hhost
  · rw [certificateFor, tlvObjects_stop hobject] at haltName
    simp at haltName

end Ipxe.Analysis
