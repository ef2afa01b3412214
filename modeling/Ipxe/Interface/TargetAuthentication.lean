import Ipxe.Model.Iscsi

/-!
# When an iSCSI target has authenticated itself

The target must have presented the CHAP response to a challenge that was generated,
and then sent to it, on the connection it is presented on.
-/

namespace Ipxe.Interface

open Model

/-- What has happened on the current connection, the latest first. -/
def sinceOpened : List IscsiRecord → List IscsiRecord
  | [] => []
  | .opened :: _ => []
  | record :: trace => record :: sinceOpened trace

/-- The response to a challenge under the configured target password. -/
def targetResponse (env : IscsiEnv) (challenge : Bytes) : Bytes :=
  (env.crypto.digest .md5).hash
    (challenge.headD 0 :: (env.targetPassword.elim [] CString.chars ++ challenge.tail))

/-- The data of a login request carries the challenge. -/
def CarriesChallenge (challenge data : Bytes) : Prop := iscsiChallengeStrings challenge <:+: data

/-- The target has authenticated itself on the current connection. -/
def TargetAuthenticated (env : IscsiEnv) (trace : List IscsiRecord) : Prop :=
  ∃ challenge data, CarriesChallenge challenge data ∧
    List.Sublist [.presented (targetResponse env challenge), .sent data, .generated challenge]
      (sinceOpened trace)

variable (iscsi : IscsiSession)

/-- The challenge that is in place was generated, and then sent, on the current
connection. -/
def ChallengeSent : Prop :=
  ∃ data, CarriesChallenge iscsi.chapChallenge data ∧
    List.Sublist [.sent data, .generated iscsi.chapChallenge] (sinceOpened iscsi.trace)

/-- The strings of a login response: what is terminated by a NUL. -/
def loginStrings (data : Bytes) : List Bytes := (data.splitOn 0).dropLast

/-- What stands before the `=` of a string. -/
def stringKey (string : Bytes) : Bytes := string.takeWhile (· ≠ 0x3d)

/-- Strings that present a response only to a challenge that has been sent, and before
they ask for another one. -/
def AnswersChallenge (strings : List Bytes) : Prop :=
  ∀ before string after, strings = before ++ string :: after →
    stringKey string = ascii "CHAP_R" →
      ChallengeSent iscsi ∧ ∀ other ∈ before, stringKey other ≠ ascii "CHAP_C"

/-- A target that behaves: its login responses answer challenges only. -/
def TargetBehaves (event : IscsiEvent) : Prop :=
  match event with
  | .loginResponse response => AnswersChallenge iscsi (loginStrings response.data)
  | _ => True

end Ipxe.Interface
