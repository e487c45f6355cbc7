import GitlabRunner.GoStrings
import GitlabRunner.KeyedCaches
import GitlabRunner.SlashPaths

/-!
# The clients of the coordinator

`GitLabClient` of `network/gitlab.go` keeps one HTTP client for each set of
credentials.  The key of a client joins the URL, the token and the two file names with
underscores, which may stand in each of the four.
-/

namespace GitlabRunner.HttpClients

open ByteText GoStrings SlashPaths KeyedCaches

structure URL where
  scheme : List UInt8
  host : List UInt8
  others : List UInt8
  deriving DecidableEq, Repr

structure Credentials where
  url : List UInt8
  token : List UInt8
  tlsCAFile : List UInt8
  tlsCertFile : List UInt8
  tlsKeyFile : List UInt8
  deriving DecidableEq, Repr

/-- The result of `url.Parse`, `CertificateDirectory`, and the files that there are. -/
structure Surroundings where
  parse : List UInt8 → Option URL
  certificateDirectory : List UInt8
  isFile : List UInt8 → Bool

inductive Error where
  | invalidURL
  | unsupportedScheme
  deriving DecidableEq, Repr

structure Client where
  url : URL
  caFile : List UInt8
  certFile : List UInt8
  keyFile : List UInt8
  deriving DecidableEq, Repr

def fixCIURL (url : List UInt8) : List UInt8 :=
  let trimmed := trimRight url (byte '/')
  if (ascii "/ci").isSuffixOf trimmed then trimmed.take (trimmed.length - 3) else trimmed

section Clients

variable (surroundings : Surroundings)

def findCertificate (certificate base name : List UInt8) : List UInt8 :=
  if certificate ≠ [] then certificate
  else if surroundings.isFile (join [base, name]) then join [base, name]
  else certificate

/-- The file of a client, looked up by host if the credentials name none. -/
def certificateFile (given host ending : List UInt8) : List UInt8 :=
  if surroundings.certificateDirectory ≠ [] then
    findCertificate surroundings given surroundings.certificateDirectory (host ++ ending)
  else given

def newClient (credentials : Credentials) : Except Error Client :=
  match surroundings.parse (fixCIURL credentials.url ++ ascii "/api/v4/") with
  | none => .error .invalidURL
  | some url =>
    if url.scheme ≠ ascii "http" ∧ url.scheme ≠ ascii "https" then .error .unsupportedScheme
    else
      let host := url.host.takeWhile (· != byte ':')
      .ok {
        url := url
        caFile := certificateFile surroundings credentials.tlsCAFile host (ascii ".crt")
        certFile := certificateFile surroundings credentials.tlsCertFile host (ascii ".auth.crt")
        keyFile := certificateFile surroundings credentials.tlsKeyFile host (ascii ".auth.key") }

def clientKey (credentials : Credentials) : List UInt8 :=
  credentials.url ++ ascii "_" ++ credentials.token ++ ascii "_" ++ credentials.tlsCAFile ++
    ascii "_" ++ credentials.tlsCertFile

abbrev GitLabClient := Cache (List UInt8) Client

/-- A client is answered as its position among those that were made. -/
def getClient (clients : GitLabClient) (credentials : Credentials) :
    Except Error Nat × GitLabClient :=
  clients.get clientKey (newClient surroundings) credentials

def answers (calls : List Credentials) : List (Credentials × Except Error Nat) :=
  Cache.empty.answers clientKey (newClient surroundings) calls

def clientsAfter (calls : List Credentials) : GitLabClient :=
  Cache.empty.after clientKey (newClient surroundings) calls

structure SameIdentity (first second : Credentials) : Prop where
  url : first.url = second.url
  token : first.token = second.token
  tlsCAFile : first.tlsCAFile = second.tlsCAFile
  tlsCertFile : first.tlsCertFile = second.tlsCertFile

/-- Every call is answered with a client like the one that `newClient` makes for its
credentials, and calls with different credentials are answered with different clients. -/
structure Separated (calls : List Credentials) : Prop where
  own : ∀ credentials position, (credentials, .ok position) ∈ answers surroundings calls →
    ∃ client made, (clientsAfter surroundings calls).values[position]? = some client ∧
      newClient surroundings credentials = .ok made ∧ client.url = made.url ∧
      client.caFile = made.caFile ∧ client.certFile = made.certFile
  apart : ∀ first second position, (first, .ok position) ∈ answers surroundings calls →
    (second, .ok position) ∈ answers surroundings calls → SameIdentity first second

end Clients

theorem equivalence_sameIdentity : Equivalence SameIdentity where
  refl _ := ⟨rfl, rfl, rfl, rfl⟩
  symm same := ⟨same.url.symm, same.token.symm, same.tlsCAFile.symm, same.tlsCertFile.symm⟩
  trans first second := ⟨first.url.trans second.url, first.token.trans second.token,
    first.tlsCAFile.trans second.tlsCAFile, first.tlsCertFile.trans second.tlsCertFile⟩

/-- The same identity gives the same client, apart from the key file. -/
theorem newClient_of_same {surroundings : Surroundings} {first second : Credentials}
    (same : SameIdentity first second) {client : Client}
    (made : newClient surroundings first = .ok client) :
    ∃ other, newClient surroundings second = .ok other ∧ client.url = other.url ∧
      client.caFile = other.caFile ∧ client.certFile = other.certFile := by
  unfold newClient at made ⊢
  rw [← same.url, ← same.tlsCAFile, ← same.tlsCertFile]
  cases parsed : surroundings.parse (fixCIURL first.url ++ ascii "/api/v4/") with
  | none =>
    rw [parsed] at made
    cases made
  | some url =>
    rw [parsed] at made
    dsimp only at made ⊢
    split at made
    · cases made
    · rename_i supported
      cases made
      rw [if_neg supported]
      exact ⟨_, rfl, rfl, rfl, rfl⟩

/-- The clients are kept apart exactly if no call has the key of an earlier one with another
identity for which there is a client. -/
theorem clients_separated_iff (surroundings : Surroundings) (calls : List Credentials) :
    Separated surroundings calls ↔
      calls.Pairwise fun earlier later => clientKey earlier = clientKey later →
        (∃ client, newClient surroundings earlier = .ok client) → SameIdentity earlier later := by
  constructor
  · intro separated
    exact sameKeysOnly_of_apart separated.apart
  · intro only
    constructor
    · intro credentials position answered
      obtain ⟨creator, client, same, made, isClient⟩ := answer_made
        equivalence_sameIdentity.refl (madeFor_empty clientKey (newClient surroundings)) only
        answered
      obtain ⟨other, otherMade, alike⟩ := newClient_of_same same made
      exact ⟨client, other, isClient, otherMade, alike⟩
    · intro first second position firstAnswer secondAnswer
      apply apart_of_sameKeysOnly equivalence_sameIdentity _ only firstAnswer secondAnswer
      rintro earlier later same ⟨client, made⟩
      obtain ⟨other, otherMade, -⟩ := newClient_of_same same made
      exact ⟨other, otherMade⟩

def parseHTTP (text : List UInt8) : Option URL :=
  if startsWith text (ascii "http://") then
    some ⟨ascii "http", (text.drop 7).takeWhile (· != byte '/'), text⟩
  else none

/-- An underscore of the URL and one of the token give the same key. -/
theorem joined_keys_collide :
    ¬∀ (surroundings : Surroundings) (calls : List Credentials), Separated surroundings calls := by
  intro separated
  have calls := separated ⟨parseHTTP, [], fun _ => false⟩
    [⟨ascii "http://one", ascii "two_three", [], [], []⟩,
      ⟨ascii "http://one_two", ascii "three", [], [], []⟩]
  have same := calls.apart _ _ 0 List.mem_cons_self
    (List.mem_cons_of_mem _ List.mem_cons_self)
  exact absurd same.url (by decide)

end GitlabRunner.HttpClients
