import Ipxe.Analysis.IscsiTextKeys
import Ipxe.Library.Schedules
import Ipxe.Library.Runs

/-!
# iSCSI target authentication

A session opens its SCSI window only with a target that has presented the CHAP response for the
challenge in place.  That this challenge was sent on the same connection is up to the target.
-/

namespace Ipxe.Analysis

open Library Model Interface List

variable {iscsi iscsi' : IscsiSession}

section

variable {env : IscsiEnv} {type : Bytes × IscsiHandler}

/-- The keys CHAP_C and CHAP_R are matched as a whole: what is shorter is taken for CHAP_A
or an earlier key. -/
theorem iscsiStringType_key {string : Bytes} (h : iscsiStringType string = some type)
    (htype : type.1 = ascii "CHAP_C" ∨ type.1 = ascii "CHAP_R") : stringKey string = type.1 := by
  unfold iscsiStringType at h
  split_ifs at h
  have hkey : stringKey string = type.1.take (stringKey string).length :=
    prefix_iff_eq_take.1 (by simpa using find?_some h)
  generalize (stringKey string).length = keyLen at hkey
  have hfirst := congrArg (Option.map Prod.fst) h
  have hsix : type.1.length = 6 := by rcases htype with htype | htype <;> rw [htype] <;> rfl
  by_cases hlen : 6 ≤ keyLen
  · rw [hkey, take_of_length_le (by omega)]
  · rw [hkey] at hfirst
    rcases htype with htype | htype <;> rw [Option.map_some, htype] at hfirst <;>
      interval_cases keyLen <;> exact absurd hfirst (by decide)

/-- What handling a string leaves alone in any case. -/
structure KeepsLogin (iscsi iscsi' : IscsiSession) : Prop where
  phase : iscsi'.status.phase = iscsi.status.phase
  required : iscsi'.status.authReverseRequired = iscsi.status.authReverseRequired
  closed : iscsi'.closed = iscsi.closed

/-- What only the handlers of CHAP_C and CHAP_R change. -/
structure KeepsAuth (iscsi iscsi' : IscsiSession) : Prop extends KeepsLogin iscsi iscsi' where
  ok : iscsi'.status.authReverseOk = iscsi.status.authReverseOk
  challenge : iscsi'.chapChallenge = iscsi.chapChallenge
  trace : iscsi'.trace = iscsi.trace

theorem KeepsAuth.refl (iscsi : IscsiSession) : KeepsAuth iscsi iscsi :=
  ⟨⟨rfl, rfl, rfl⟩, rfl, rfl, rfl⟩

/-- What handling a string with this key can do to authentication of the target. -/
inductive ChapEffect (env : IscsiEnv) (key : Bytes) (iscsi iscsi' : IscsiSession) : Prop
  | keeps (hkeeps : KeepsAuth iscsi iscsi')
  | generates (hkey : key = ascii "CHAP_C") (hlogin : KeepsLogin iscsi iscsi')
      (hok : iscsi'.status.authReverseOk = iscsi.status.authReverseOk)
      (htrace : iscsi'.trace = .generated iscsi'.chapChallenge :: iscsi.trace)
  | responds (hkey : key = ascii "CHAP_R") (hlogin : KeepsLogin iscsi iscsi')
      (hchallenge : iscsi'.chapChallenge = iscsi.chapChallenge) (response : Bytes)
      (htrace : iscsi'.trace = .presented response :: iscsi.trace)
      (hok : iscsi'.status.authReverseOk = iscsi.status.authReverseOk ∨
        (iscsi'.status.authReverseOk = true ∧ response = targetResponse env iscsi.chapChallenge))

theorem ChapEffect.asked {key : Bytes} {turn : ℕ}
    (h : ChapEffect env key { iscsi with turn := turn } iscsi') : ChapEffect env key iscsi iscsi' := by
  have hasked (h : KeepsLogin { iscsi with turn := turn } iscsi') : KeepsLogin iscsi iscsi' :=
    ⟨h.phase, h.required, h.closed⟩
  cases h with
  | keeps h => exact .keeps ⟨hasked h.toKeepsLogin, h.ok, h.challenge, h.trace⟩
  | generates hkey h hok htrace => exact .generates hkey (hasked h) hok htrace
  | responds hkey h hchallenge response htrace hok =>
    exact .responds hkey (hasked h) hchallenge response htrace hok

/-- The response that is expected is the one to the challenge in place. -/
theorem iscsiExpectedResponse_eq {oracle : IscsiOracle} {chap : ChapResponse}
    (h : chapInit oracle 0 = .ok chap) (challenge : Bytes) :
    (iscsiExpectedResponse env chap challenge).response = targetResponse env challenge := by
  unfold chapInit at h
  split_ifs at h
  cases h
  unfold iscsiExpectedResponse targetResponse
  cases env.targetPassword <;>
    simp [chapSetIdentifier, chapUpdate, chapRespond]

/-- **A response sets the mark only if it is the one to the challenge in place**, and a
target's challenge may bring about a new one for the target.  The other handlers have nothing to
do with authentication of the target. -/
theorem chapEffect_handler (h : type ∈ iscsiStringTypes) {key : Bytes}
    (hkey : type.1 = ascii "CHAP_C" ∨ type.1 = ascii "CHAP_R" → key = type.1)
    (oracle : IscsiOracle) (iscsi : IscsiSession) (value : Bytes) :
    ChapEffect env key iscsi (type.2 env oracle iscsi value).2 := by
  simp only [iscsiStringTypes, mem_cons, not_mem_nil, or_false] at h
  rcases h with rfl | rfl | rfl | rfl | rfl | rfl | rfl | rfl
  pick_goal 8
  · simp only [iscsiHandleChapRValue]
    split
    · exact .keeps ⟨⟨rfl, rfl, rfl⟩, rfl, rfl, rfl⟩
    next chap hinit =>
    split
    · exact .keeps ⟨⟨rfl, rfl, rfl⟩, rfl, rfl, rfl⟩
    split
    · exact .keeps ⟨⟨rfl, rfl, rfl⟩, rfl, rfl, rfl⟩
    next response hdecode =>
    split_ifs with hlen hwrong
    · exact .responds (hkey (.inr rfl)) ⟨rfl, rfl, rfl⟩ rfl response rfl (.inl rfl)
    · exact .responds (hkey (.inr rfl)) ⟨rfl, rfl, rfl⟩ rfl response rfl (.inl rfl)
    · refine .responds (hkey (.inr rfl)) ⟨rfl, rfl, rfl⟩ rfl response rfl (.inr ⟨rfl, ?_⟩)
      rw [← iscsiExpectedResponse_eq hinit]
      exact not_not.1 hwrong
  all_goals
    simp only [iscsiHandleTargetaddressValue, iscsiHandleMaxburstlengthValue,
      iscsiHandleAuthmethodValue, iscsiHandleChapAValue, iscsiHandleChapIValue,
      iscsiHandleChapCValue, iscsiHandleChapNValue]
    repeat' split
    all_goals first
      | exact .keeps ⟨⟨rfl, rfl, rfl⟩, rfl, rfl, rfl⟩
      | exact .generates (hkey (.inl rfl)) ⟨rfl, rfl, rfl⟩ rfl rfl

theorem chapEffect_iscsiHandleString (iscsi : IscsiSession) (string : Bytes) :
    ChapEffect env (stringKey string) iscsi (iscsiHandleString env iscsi string).2 := by
  rw [iscsiHandleString_eq, runHandler]
  cases htype : iscsiStringType string with
  | none => exact .keeps (.refl iscsi)
  | some type =>
    have hmem : type ∈ iscsiStringTypes := by
      unfold iscsiStringType at htype
      split_ifs at htype
      exact mem_of_find?_eq_some htype
    exact (chapEffect_handler hmem (iscsiStringType_key htype) _ _ _).asked

theorem sinceOpened_cons {record : IscsiRecord} (h : record ≠ .opened) (trace : List IscsiRecord) :
    sinceOpened (record :: trace) = record :: sinceOpened trace := by
  cases record with
  | opened => exact absurd rfl h
  | _ => rfl

theorem targetAuthenticated_cons {trace : List IscsiRecord} {record : IscsiRecord}
    (h : record ≠ .opened) (hauthenticated : TargetAuthenticated env trace) :
    TargetAuthenticated env (record :: trace) := by
  obtain ⟨challenge, data, hcarries, hsublist⟩ := hauthenticated
  refine ⟨challenge, data, hcarries, ?_⟩
  rw [sinceOpened_cons h]
  exact hsublist.cons record

theorem challengeSent_congr (hchallenge : iscsi'.chapChallenge = iscsi.chapChallenge)
    (htrace : iscsi'.trace = iscsi.trace) (h : ChallengeSent iscsi) : ChallengeSent iscsi' := by
  unfold ChallengeSent
  rw [hchallenge, htrace]
  exact h

theorem targetAuthenticated_presented (h : ChallengeSent iscsi) :
    TargetAuthenticated env
      (.presented (targetResponse env iscsi.chapChallenge) :: iscsi.trace) := by
  obtain ⟨data, hcarries, hsublist⟩ := h
  refine ⟨iscsi.chapChallenge, data, hcarries, ?_⟩
  exact hsublist.cons_cons _

/-- A session that is marked as authenticated is, and the window of an open session is
open only if it is. -/
structure AuthInvariant (env : IscsiEnv) (iscsi : IscsiSession) : Prop where
  ok : iscsi.status.authReverseOk = true → TargetAuthenticated env iscsi.trace
  required : iscsi.closed = none → env.targetUsername.isSome = true →
    iscsi.status.authReverseRequired = true
  window : iscsi.closed = none → iscsi.status.phase = .fullFeature →
    iscsi.status.authReverseRequired = true → iscsi.status.authReverseOk = true

theorem authInvariant_of_keepsLogin (hinv : AuthInvariant env iscsi)
    (hlogin : KeepsLogin iscsi iscsi')
    (hok : iscsi'.status.authReverseOk = true → TargetAuthenticated env iscsi'.trace)
    (hkept : iscsi.status.authReverseOk = true → iscsi'.status.authReverseOk = true) :
    AuthInvariant env iscsi' := by
  refine ⟨hok, ?_, ?_⟩
  · rw [hlogin.closed, hlogin.required]
    exact hinv.required
  · rw [hlogin.closed, hlogin.phase, hlogin.required]
    exact fun hclosed hphase hrequired => hkept (hinv.window hclosed hphase hrequired)

/-- **One string of a target that behaves.**  A string that asks for a new
challenge is not followed by a response, and a response is one to a challenge that was
sent. -/
theorem authInvariant_iscsiHandleString {string : Bytes} {strings : List Bytes}
    (h : AuthInvariant env iscsi ∧ AnswersChallenge iscsi (string :: strings)) :
    AuthInvariant env (iscsiHandleString env iscsi string).2 ∧
      AnswersChallenge (iscsiHandleString env iscsi string).2 strings := by
  obtain ⟨hinv, hanswers⟩ := h
  unfold AnswersChallenge at hanswers
  rw [forall_splits_cons] at hanswers
  obtain ⟨hstring, hstrings⟩ := hanswers
  cases @chapEffect_iscsiHandleString env iscsi string with
  | keeps hkeeps =>
    refine ⟨authInvariant_of_keepsLogin hinv hkeeps.toKeepsLogin ?_ ?_, ?_⟩
    · rw [hkeeps.ok, hkeeps.trace]
      exact hinv.ok
    · rw [hkeeps.ok]
      exact id
    · intro before item after hsplit hitem
      obtain ⟨hsent, hbefore⟩ := hstrings before item after hsplit hitem
      exact ⟨challengeSent_congr hkeeps.challenge hkeeps.trace hsent,
        fun other hother => hbefore other (mem_cons_of_mem string hother)⟩
  | generates hC hlogin hok htrace =>
    refine ⟨authInvariant_of_keepsLogin hinv hlogin ?_ ?_, ?_⟩
    · rw [hok, htrace]
      exact fun hmarked => targetAuthenticated_cons (by simp) (hinv.ok hmarked)
    · rw [hok]
      exact id
    · intro before item after hsplit hitem
      obtain ⟨-, hbefore⟩ := hstrings before item after hsplit hitem
      exact absurd hC (hbefore string mem_cons_self)
  | responds hR hlogin hchallenge response htrace hok =>
    have hsent := (hstring hR).1
    refine ⟨authInvariant_of_keepsLogin hinv hlogin ?_ ?_, ?_⟩
    · rw [htrace]
      intro hmarked
      rcases hok with hok | ⟨-, rfl⟩
      · rw [hok] at hmarked
        exact targetAuthenticated_cons (by simp) (hinv.ok hmarked)
      · exact targetAuthenticated_presented hsent
    · intro hmarked
      rcases hok with hok | ⟨hok, -⟩
      · rw [hok, hmarked]
      · exact hok
    · intro before item after hsplit hitem
      obtain ⟨-, hbefore⟩ := hstrings before item after hsplit hitem
      refine ⟨?_, fun other hother => hbefore other (mem_cons_of_mem string hother)⟩
      obtain ⟨data, hcarries, hsublist⟩ := hsent
      refine ⟨data, by rwa [hchallenge], ?_⟩
      rw [hchallenge, htrace]
      exact hsublist.cons _

/-! ## Events -/

theorem authInvariant_iscsiClose {iscsi : IscsiSession} {rc : Except Errno Unit}
    (hok : iscsi.status.authReverseOk = true → TargetAuthenticated env iscsi.trace) :
    AuthInvariant env (iscsiClose iscsi rc) := by
  unfold iscsiClose
  split <;> exact ⟨hok, nofun, nofun⟩

theorem authInvariant_error {rc : Errno}
    (hok : iscsi.status.authReverseOk = true → TargetAuthenticated env iscsi.trace) :
    AuthInvariant env (iscsiDone (.error rc, iscsi)) :=
  @authInvariant_iscsiClose env iscsi (.error rc) hok

/-- A new connection starts without authentication. -/
theorem authInvariant_iscsiOpenConnection (hok : iscsi.status.authReverseOk = false) :
    AuthInvariant env (iscsiDone (iscsiOpenConnection env iscsi)) := by
  simp only [iscsiOpenConnection]
  split
  · exact authInvariant_error (by simp [hok])
  · exact ⟨nofun, fun _ h => h, nofun⟩

theorem iscsiTransition_cases (iscsi : IscsiSession) (flags : UInt8) :
    let iscsi' := (iscsiTransition iscsi flags).2
    iscsi'.status.authReverseOk = iscsi.status.authReverseOk ∧
    iscsi'.status.authReverseRequired = iscsi.status.authReverseRequired ∧
    iscsi'.closed = iscsi.closed ∧ iscsi'.trace = iscsi.trace := by
  simp only [iscsiTransition]
  split_ifs <;> exact ⟨rfl, rfl, rfl, rfl⟩

/-- **The full feature phase is not entered without authentication**, if it is
required. -/
theorem authInvariant_iscsiAdvance (hinv : AuthInvariant env iscsi) (flags : UInt8) :
    AuthInvariant env (iscsiDone (iscsiAdvance env iscsi flags)) := by
  have htransition := iscsiTransition_cases iscsi flags
  unfold iscsiAdvance
  split
  · next rc iscsi' hresult =>
      rw [hresult] at htransition
      obtain ⟨hok, hrequired, hclosed, htrace⟩ := htransition
      exact authInvariant_error (by rw [hok, htrace]; exact hinv.ok)
  · next iscsi' hresult =>
      rw [hresult] at htransition
      obtain ⟨hok, hrequired, hclosed, htrace⟩ := htransition
      have hok' : iscsi'.status.authReverseOk = true → TargetAuthenticated env iscsi'.trace := by
        rw [hok, htrace]
        exact hinv.ok
      have hrequired' : iscsi'.closed = none → env.targetUsername.isSome = true →
          iscsi'.status.authReverseRequired = true := by
        rw [hclosed, hrequired]
        exact hinv.required
      split_ifs with hphase hbypass
      · exact ⟨hok', hrequired', fun _ hfull => absurd hfull hphase⟩
      · exact authInvariant_error hok'
      · refine ⟨hok', hrequired', fun _ _ hneeded => ?_⟩
        by_contra hnot
        exact hbypass ⟨hneeded, hnot⟩

/-- **A login response of a target that behaves.** -/
theorem authInvariant_iscsiRxLoginResponse {response : IscsiLoginResponse}
    (hinv : AuthInvariant env iscsi)
    (hanswers : AnswersChallenge iscsi (loginStrings response.data)) :
    AuthInvariant env (iscsiDone (iscsiRxLoginResponse env iscsi response)) := by
  let asked : IscsiSession := { iscsi with turn := iscsi.turn + 1 }
  have hasked : AuthInvariant env asked := ⟨hinv.ok, hinv.required, hinv.window⟩
  obtain ⟨-, hinv', -⟩ := @iscsiHandleStrings_invariant env
    (fun iscsi strings => AuthInvariant env iscsi ∧ AnswersChallenge iscsi strings)
    (fun _ _ _ h => authInvariant_iscsiHandleString h) asked response.data ⟨hasked, hanswers⟩
  simp only [iscsiRxLoginResponse]
  split
  · exact authInvariant_error hinv.ok
  · split
    · next rc iscsi' hstrings =>
        rw [hstrings] at hinv'
        exact authInvariant_error hinv'.ok
    · next iscsi' hstrings =>
        rw [hstrings] at hinv'
        split
        · exact authInvariant_iscsiOpenConnection rfl
        · split
          · exact authInvariant_error hinv'.ok
          · exact authInvariant_iscsiAdvance hinv' response.flags

/-- Transmission has nothing to do with authentication, and only adds to the
record. -/
theorem authInvariant_iscsiTxStep (hinv : AuthInvariant env iscsi) (window : Bool)
    (rc : Except Errno Unit) : AuthInvariant env (iscsiTxStep env iscsi window rc) := by
  have hsame (txState : IscsiTxState) : AuthInvariant env { iscsi with txState } :=
    ⟨hinv.ok, hinv.required, hinv.window⟩
  unfold iscsiTxStep
  repeat' split
  all_goals first
    | exact hinv
    | exact authInvariant_iscsiClose hinv.ok
    | exact hsame _
    | exact ⟨fun hok => targetAuthenticated_cons (by simp) (hinv.ok hok), hinv.required, hinv.window⟩

theorem authInvariant_iscsiStep (iscsi : IscsiSession) (event : IscsiEvent)
    (hinv : AuthInvariant env iscsi) (hbehaves : TargetBehaves iscsi event) :
    AuthInvariant env (iscsiStep env iscsi event) := by
  unfold iscsiStep
  split
  · exact hinv
  · cases event with
    | loginResponse response => exact authInvariant_iscsiRxLoginResponse hinv hbehaves
    | tx window rc => exact authInvariant_iscsiTxStep hinv window rc
    | scsiCommand =>
      simp only [iscsiScsiCommand]
      split_ifs <;> exact ⟨hinv.ok, hinv.required, hinv.window⟩
    | scsiDone => exact ⟨hinv.ok, hinv.required, hinv.window⟩
    | close rc => exact authInvariant_iscsiClose hinv.ok

theorem authInvariant_iscsiOpen : AuthInvariant env (iscsiOpen env) := by
  simp only [iscsiOpen]
  split
  · exact authInvariant_iscsiClose nofun
  · exact authInvariant_iscsiOpenConnection rfl

end

/-- **If a target username is configured, the window is open only to a target that has
authenticated itself on the current connection**, in every run in which the target responds only
to challenges that have been sent to it on that connection.
[net/tcp/iscsi.c:1019-1166,1320-1405] -/
theorem iscsi_window_authenticated (env : IscsiEnv) (events : List IscsiEvent)
    (hbehaves : Meets (iscsiStep env) TargetBehaves (iscsiOpen env) events) :
    let iscsi := run (iscsiStep env) (iscsiOpen env) events
    env.targetUsername.isSome = true → iscsi.closed = none → iscsiScsiWindow iscsi = 1 →
      TargetAuthenticated env iscsi.trace := by
  intro iscsi husername hopen hwindow
  have hinv : AuthInvariant env iscsi :=
    run_invariant authInvariant_iscsiStep authInvariant_iscsiOpen hbehaves
  have hphase : iscsi.status.phase = .fullFeature := by
    unfold iscsiScsiWindow at hwindow
    split_ifs at hwindow with hphase
    exact hphase.1
  exact hinv.ok (hinv.window hopen hphase (hinv.required hopen husername))

theorem answersChallenge_of_key_ne {strings : List Bytes}
    (hkeys : ∀ string ∈ strings, stringKey string ≠ ascii "CHAP_R") :
    AnswersChallenge iscsi strings := by
  rintro before string after rfl hkey
  exact absurd hkey (hkeys string (by simp))

theorem answersChallenge_of_sent {strings : List Bytes} (hsent : ChallengeSent iscsi)
    (hkeys : ∀ string ∈ strings, stringKey string ≠ ascii "CHAP_C") :
    AnswersChallenge iscsi strings := by
  rintro before string after rfl -
  exact ⟨hsent, fun other hother => hkeys other (by simp [hother])⟩

/-- A session that requires authentication of the target, with random numbers that are
all one. -/
def authEnv : IscsiEnv where
  crypto := acceptingCrypto
  ulongBits := 32
  initiatorIqn := ⟨ascii "iqn.i", by decide⟩
  targetIqn := ⟨ascii "iqn.t", by decide⟩
  targetAddress := ⟨ascii "target", by decide⟩
  targetPort := 3260
  initiatorUsername := some ⟨ascii "iname", by decide⟩
  initiatorPassword := some ⟨ascii "isecret", by decide⟩
  targetUsername := some ⟨ascii "tname", by decide⟩
  targetPassword := some ⟨ascii "tsecret", by decide⟩
  oracle _ := ⟨fun _ => true, fun _ => 0, fun _ => 1, .ok ()⟩

/-- A login request is transmitted. -/
def requestSent : List IscsiEvent := List.replicate 3 (.tx true (.ok ()))

/-- A login response that presents the response to a challenge, and offers the transition
to the full feature phase. -/
def responseTo (challenge : Bytes) : IscsiLoginResponse where
  flags := 0x83
  statusClass := 0
  statusDetail := 0
  data := ascii "CHAP_N=tname" ++ [0] ++
    ascii "CHAP_R=0x" ++ base16Encode (targetResponse authEnv challenge) ++ [0]

/-- A login response that asks for a challenge. -/
def challengeFor : IscsiLoginResponse where
  flags := 0
  statusClass := 0
  statusDetail := 0
  data := ascii "CHAP_A=5" ++ [0] ++ ascii "CHAP_I=7" ++ [0] ++ ascii "CHAP_C=0x55" ++ [0]

def behavingEvents : List IscsiEvent :=
  requestSent ++ .loginResponse challengeFor :: requestSent ++
    [.loginResponse (responseTo (List.replicate 17 1))]

/-- A target that waits for its challenge is let in. -/
theorem iscsi_window_authenticated_behaving :
    let iscsi := run (iscsiStep authEnv) (iscsiOpen authEnv) behavingEvents
    iscsi.closed = none ∧ iscsiScsiWindow iscsi = 1 ∧ TargetAuthenticated authEnv iscsi.trace := by
  have hsent : ChallengeSent (run (iscsiStep authEnv) (iscsiOpen authEnv)
      (requestSent ++ .loginResponse challengeFor :: requestSent)) :=
    ⟨ascii "CHAP_N=iname" ++ [0] ++
        ascii "CHAP_R=0x" ++ base16Encode ((authEnv.crypto.digest .md5).hash
          (7 :: ascii "isecret" ++ [0x55])) ++ [0] ++ iscsiChallengeStrings (List.replicate 17 1),
      ⟨_, [], append_nil _⟩, by decide +kernel⟩
  have hbehaves : Meets (iscsiStep authEnv) TargetBehaves (iscsiOpen authEnv) behavingEvents := by
    refine ⟨trivial, trivial, trivial, ?_, trivial, trivial, trivial, ?_, trivial⟩
    · exact answersChallenge_of_key_ne (by decide +kernel)
    · exact answersChallenge_of_sent hsent (by decide +kernel)
  have hopen : (run (iscsiStep authEnv) (iscsiOpen authEnv) behavingEvents).closed = none := by
    decide +kernel
  have hwindow : iscsiScsiWindow (run (iscsiStep authEnv) (iscsiOpen authEnv) behavingEvents) = 1 := by
    decide +kernel
  exact ⟨hopen, hwindow,
    iscsi_window_authenticated authEnv behavingEvents hbehaves rfl hopen hwindow⟩

/-- **A target that was never sent a challenge is let in, too.**  Its first login
response presents the response to the challenge that a new session has in place, seventeen
zero bytes, whatever the random numbers are.
[net/tcp/iscsi.c:1103-1166,2174-2253] -/
theorem iscsi_window_unauthenticated :
    let iscsi := run (iscsiStep authEnv) (iscsiOpen authEnv)
      (requestSent ++ [.loginResponse (responseTo (List.replicate 17 0))])
    authEnv.targetUsername.isSome = true ∧ iscsi.closed = none ∧ iscsiScsiWindow iscsi = 1 ∧
      ¬ TargetAuthenticated authEnv iscsi.trace := by
  refine ⟨rfl, by decide +kernel, by decide +kernel, ?_⟩
  rintro ⟨challenge, data, -, hsublist⟩
  -- a request and the response are all there is on the connection, and no challenge
  have htrace : (sinceOpened (run (iscsiStep authEnv) (iscsiOpen authEnv)
      (requestSent ++ [.loginResponse (responseTo (List.replicate 17 0))])).trace).length = 2 := by
    decide +kernel
  have hlen := hsublist.length_le
  rw [htrace] at hlen
  simp at hlen

end Ipxe.Analysis
