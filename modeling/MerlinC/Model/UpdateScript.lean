import Mathlib.Data.List.Forall2
import MerlinC.Model.Shell

/-! # The address update script

`merlinc_update.sh` as a process that runs external commands one after another and goes on with
what each of them prints and returns. The commands are the configured address command,
`nslookup`, the requests it sends with `curl`, and the writes of `aliddns_last_act`. The texts
that `send_request` signs and fetches are computed from the request; the signature is the value
of a function that stands for `openssl`.
-/

namespace MerlinC.Model

open Math Shell

/-- The `aliddns_` settings. -/
structure Settings where
  enable : Bytes
  domain : Bytes
  curl : Bytes
  dns : Bytes
  ttl : Bytes
  ak : Bytes
  sk : Bytes
  recordId : Bytes
deriving DecidableEq

/-- The settings of an enabled script that leaves everything else at its default. -/
def Settings.forDomain (domain : Bytes) : Settings where
  enable := ascii "1"
  domain := domain
  curl := []
  dns := []
  ttl := []
  ak := ascii "key"
  sk := ascii "secret"
  recordId := []

/-- `[a-zA-Z0-9._-]` -/
def UpdateScript.plain (b : UInt8) : Bool := alphanumeric b || (ascii "._-").contains b

/-- The parts of the timestamp of one run, which `date` prints with digits and hyphens. -/
structure Clock where
  date : Bytes
  hour : Bytes
  minute : Bytes
  second : Bytes
  plain : ∀ part ∈ [date, hour, minute, second], part.all UpdateScript.plain = true

/-- A request, with the words that the script splices into it. -/
inductive Request where
  | query (rr domain : Bytes)
  | update (rr recordId value : Bytes)
  | add (rr domain value : Bytes)
deriving DecidableEq

/-- What is written to `aliddns_last_act`. -/
inductive Status where
  | died (ip : Bytes)
  | skipped
  | failed
  | succeeded (ip : Bytes)
deriving DecidableEq

/-- What a command printed, and its exit status. -/
structure Reply where
  status : ℕ
  output : Bytes
deriving DecidableEq

/-- A command, with its words where they come from unquoted expansions. -/
inductive Command where
  | address (words : List Bytes)
  | nslookup (args : List Bytes)
  | fetch (request : Request)
  | write (status : Status)
deriving DecidableEq

/-- A script that has exited, or runs a command and goes on with its reply. -/
inductive Script where
  | exit
  | run (command : Command) (next : Reply → Script)

namespace Status

/-- The two texts that tell of success. -/
def success : Status → Bool
  | died _ => false
  | skipped => true
  | failed => false
  | succeeded _ => true

def text (now : Bytes) : Status → Bytes
  | died ip => now ++ utf8 " [失败](IP:" ++ ip ++ utf8 ")"
  | skipped => utf8 "<font color=blue>" ++ now ++ utf8 "    域名解析正常，跳过更新</font>"
  | failed => utf8 "<font color=red>" ++ now ++ utf8 "    域名解析失败</font>"
  | succeeded ip =>
    utf8 "<font color=green>" ++ now ++ utf8 "    域名解析成功。当前IP：" ++ ip ++ utf8 "</font>"

end Status

namespace UpdateScript

def dot : UInt8 := 46

/-- `a_name` -/
def aName (cfg : Settings) : Bytes := cutField dot 1 (echo cfg.domain)

/-- `a_domain` -/
def aDomain (cfg : Settings) : Bytes :=
  cutField dot 2 (echo cfg.domain) ++ dot :: cutField dot 3 (echo cfg.domain)

/-- `a_name1` -/
def aName1 (cfg : Settings) : Bytes :=
  if aName cfg = ascii "*" then ascii "%2A"
  else if aName cfg = ascii "@" then ascii "%40"
  else aName cfg

/-- A setting, or its default if it is empty. -/
def orDefault (value : Bytes) (default : String) : Bytes :=
  if value = [] then ascii default else value

def curl (cfg : Settings) : Bytes := orDefault cfg.curl "curl -s whatismyip.akamai.com"

def dns (cfg : Settings) : Bytes := orDefault cfg.dns "223.5.5.5"

def ttl (cfg : Settings) : Bytes := orDefault cfg.ttl "600"

/-- `timestamp`, in which the colons are already encoded. -/
def timestamp (clock : Clock) : Bytes :=
  clock.date ++ ascii "T" ++ clock.hour ++ ascii "%3A" ++ clock.minute ++ ascii "%3A" ++
    clock.second ++ ascii "Z"

/-- One turn of the loop in `urlencode`. `printf` gives the value 0 to a missing character. -/
def encodeChar (c : Bytes) : Bytes :=
  match c with
  | [] => escape 0
  | b :: bs => if bs = [] ∧ plain b then [b] else escape b

/-- `urlencode` -/
def urlencode (input : Bytes) : Bytes := echoN ((readEach input).flatMap encodeChar)

/-- `enc` -/
def enc (arg : Bytes) : Bytes := urlencode (echoN arg)

section Encode

theorem plain_of_alphanumeric {b : UInt8} (letter : alphanumeric b = true) : plain b = true := by
  rw [plain, letter, Bool.true_or]

theorem blank_not_plain (b : UInt8) (separator : blank b = true) : plain b = false := by
  simp only [blank, List.contains_eq_mem, decide_eq_true_eq, List.mem_cons, List.not_mem_nil,
    or_false] at separator
  rcases separator with rfl | rfl | rfl <;> rfl

theorem encodeChar_single (b : UInt8) : encodeChar [b] = encodeByte plain b := by
  simp only [encodeChar, encodeByte, true_and]

/-- The bytes that the loop encodes: a missing character counts as NUL. -/
def readBytes (s : Bytes) : Bytes := (readEach s).map fun c => c.headD 0

theorem length_le_of_readEach (s : Bytes) : ∀ c ∈ readEach s, c.length ≤ 1 := by
  induction s using readEach.induct with
  | case1 => simp [readEach]
  | case2 => simp [readEach]
  | case3 b other here => simp [readEach, other, here]
  | case4 b other solid => simp [readEach, other, solid]
  | case5 rest ih => simpa [readEach] using ih
  | case6 c rest other ih => simpa [readEach, other] using ih
  | case7 b c rest other here ih => simpa [readEach, other, here] using ih
  | case8 b c rest other solid ih => simpa [readEach, other, solid] using ih

/-- One turn of the loop after another is percent-encoding. -/
theorem urlencode_eq (input : Bytes) :
    urlencode input = echoN (percentEncode plain (readBytes input)) := by
  have each (cs : List Bytes) (short : ∀ c ∈ cs, c.length ≤ 1) :
      cs.flatMap encodeChar = percentEncode plain (cs.map fun c => c.headD 0) := by
    induction cs with
    | nil => rfl
    | cons c cs ih =>
      have rest := ih fun d member => short d (List.mem_cons_of_mem c member)
      have first : encodeChar c = encodeByte plain (c.headD 0) := by
        rcases c with _ | ⟨b, _ | ⟨d, c⟩⟩
        · rfl
        · exact encodeChar_single b
        · exact absurd (short _ List.mem_cons_self) (by simp)
      rw [List.flatMap_cons, rest, first, List.map_cons, percentEncode_cons]
  rw [urlencode, each (readEach input) (length_le_of_readEach input), readBytes]

/-- `read` leaves out backslashes and makes separators missing characters. -/
theorem readBytes_sublist (s : Bytes) :
    (readBytes s).SublistForall₂ (fun c b => c = b ∨ c = 0 ∧ blank b = true) s := by
  unfold readBytes
  induction s using readEach.induct with
  | case1 => exact .nil
  | case2 =>
    rw [readEach, if_pos rfl]
    exact .nil
  | case3 b other here =>
    rw [readEach, if_neg other, if_pos here]
    exact .cons (.inr ⟨rfl, here⟩) .nil
  | case4 b other solid =>
    rw [readEach, if_neg other, if_neg solid]
    exact .cons (.inl rfl) .nil
  | case5 rest ih =>
    rw [readEach, if_pos rfl, if_pos rfl]
    exact .cons_right (.cons_right ih)
  | case6 c rest other ih =>
    rw [readEach, if_pos rfl, if_neg other]
    exact .cons_right (.cons (.inl rfl) ih)
  | case7 b c rest other here ih =>
    rw [readEach, if_neg other, if_pos here]
    exact .cons (.inr ⟨rfl, here⟩) ih
  | case8 b c rest other solid ih =>
    rw [readEach, if_neg other, if_neg solid]
    exact .cons (.inl rfl) ih

theorem length_readBytes_le (s : Bytes) : (readBytes s).length ≤ s.length := by
  obtain ⟨kept, each, sublist⟩ := List.sublistForall₂_iff.mp (readBytes_sublist s)
  rw [each.length_eq]
  exact sublist.length_le

/-- The loop never gives more than an encoder of the whole input. -/
theorem length_encode_readBytes_le (s : Bytes) :
    (percentEncode plain (readBytes s)).length ≤ (percentEncode plain s).length := by
  have left := readBytes_sublist s
  generalize readBytes s = read at left ⊢
  induction left with
  | nil => exact Nat.zero_le _
  | @cons c b _ _ related _ ih =>
    rw [length_percentEncode_cons, length_percentEncode_cons]
    apply Nat.add_le_add _ ih
    rcases related with rfl | ⟨_, here⟩
    · exact Nat.le_refl _
    · rw [blank_not_plain b here, if_neg Bool.false_ne_true]
      split
      · omega
      · exact Nat.le_refl 3
  | cons_right _ ih =>
    rw [length_percentEncode_cons]
    omega

/-- Without separators and backslashes nothing is lost. -/
theorem readBytes_eq {s : Bytes} (solid : ∀ b ∈ s, b ≠ backslash ∧ blank b = false) :
    readBytes s = s := by
  rw [readBytes, readEach_eq solid, List.map_map]
  exact List.map_id s

theorem enc_eq_echoN (s : Bytes) : enc s = echoN (percentEncode plain (readBytes (echoN s))) := by
  rw [enc, urlencode_eq]

theorem mem_enc {arg : Bytes} {b : UInt8} (member : b ∈ commandSubst (enc arg)) :
    plain b = true ∨ b = percent := by
  have inside := (commandSubst_front _).subset member
  rw [enc_eq_echoN] at inside
  rcases of_mem_percentEncode plain ((echoN_front _).subset inside) with ⟨kept, _⟩ | escaped | digit
  · exact .inl kept
  · exact .inr escaped
  · exact .inl (plain_of_alphanumeric digit)

theorem length_enc_le (arg : Bytes) :
    (commandSubst (enc arg)).length ≤ (percentEncode plain arg).length := by
  have cut := (commandSubst_front (enc arg)).length_le
  have outer := (echoN_front (percentEncode plain (readBytes (echoN arg)))).length_le
  have loop := length_encode_readBytes_le (echoN arg)
  have inner := (percentEncode_front plain (echoN_front arg)).length_le
  rw [← enc_eq_echoN] at outer
  omega

/-- Text that starts with a letter, without backslashes and separators, is encoded byte by byte. -/
theorem enc_eq {b : UInt8} {rest : Bytes} (letter : alphanumeric b = true)
    (solid : ∀ c ∈ b :: rest, c ≠ backslash ∧ blank c = false) :
    commandSubst (enc (b :: rest)) = percentEncode plain (b :: rest) := by
  have hyphen : b ≠ 45 := by
    rintro rfl
    contradiction
  have first : percentEncode plain (b :: rest) = b :: percentEncode plain rest := by
    rw [percentEncode_cons, encodeByte, if_pos (plain_of_alphanumeric letter)]
    rfl
  have whole : enc (b :: rest) = percentEncode plain (b :: rest) := by
    rw [enc_eq_echoN, echoN_of_ne hyphen, readBytes_eq solid, first, echoN_of_ne hyphen]
  rw [← whole]
  apply commandSubst_eq
  intro newline_
  rw [whole] at newline_
  rcases of_mem_percentEncode plain newline_ with ⟨kept, _⟩ | escaped | digit
  · contradiction
  · contradiction
  · contradiction

end Encode

/-- What the parameters of all requests have in common. -/
def signature (clock : Clock) : Bytes :=
  ascii "SignatureMethod=HMAC-SHA1&SignatureNonce=" ++ timestamp clock ++
    ascii "&SignatureVersion=1.0"

/-- The first argument of `send_request`. -/
def action : Request → Bytes
  | .query _ _ => ascii "DescribeSubDomainRecords"
  | .update _ _ _ => ascii "UpdateDomainRecord"
  | .add _ domain _ => ascii "AddDomainRecord&DomainName=" ++ domain

/-- The second argument of `send_request`. -/
def parameters (cfg : Settings) (clock : Clock) : Request → Bytes
  | .query rr domain =>
    signature clock ++ ascii "&SubDomain=" ++ rr ++ ascii "." ++ domain ++ ascii "&Timestamp=" ++
      timestamp clock
  | .update rr recordId value =>
    ascii "RR=" ++ rr ++ ascii "&RecordId=" ++ recordId ++ ascii "&" ++ signature clock ++
      ascii "&TTL=" ++ ttl cfg ++ ascii "&Timestamp=" ++ timestamp clock ++
      ascii "&Type=A&Value=" ++ value
  | .add rr _ value =>
    ascii "RR=" ++ rr ++ ascii "&" ++ signature clock ++
      ascii "&TTL=" ++ ttl cfg ++ ascii "&Timestamp=" ++ timestamp clock ++
      ascii "&Type=A&Value=" ++ value

/-- `args` in `send_request`. -/
def args (cfg : Settings) (clock : Clock) (r : Request) : Bytes :=
  ascii "AccessKeyId=" ++ cfg.ak ++ ascii "&Action=" ++ action r ++ ascii "&Format=json&" ++
    parameters cfg clock r ++ ascii "&Version=2015-01-09"

/-- The string that `send_request` has signed. -/
def stringToSign (cfg : Settings) (clock : Clock) (r : Request) : Bytes :=
  echoN (ascii "GET&%2F&" ++ commandSubst (enc (args cfg clock r)))

/-- The URL that `send_request` fetches. `sign data key` is what `openssl` prints. -/
def url (sign : Bytes → Bytes → Bytes) (cfg : Settings) (clock : Clock) (r : Request) : Bytes :=
  let hash := commandSubst (sign (stringToSign cfg clock r) (cfg.sk ++ ascii "&"))
  ascii "http://alidns.aliyuncs.com/?" ++ args cfg clock r ++ ascii "&Signature=" ++
    commandSubst (enc hash)

/-- The digits of a record id at the front of a text. -/
def idHere? (text : Bytes) : Option Bytes :=
  let marker := ascii "\"RecordId\":\""
  let digit := fun b : UInt8 => 48 ≤ b.toNat && b.toNat ≤ 57
  if marker.isPrefixOf text then
    let digits := (text.drop marker.length).takeWhile digit
    if digits ≠ [] ∧ ((text.drop marker.length).dropWhile digit).head? = some 34 then some digits
    else none
  else none

/-- The matches that `grep -Eo` finds from left to right, with `skip` bytes of one still to
pass, each cut down to its digits. -/
def recordIds : ℕ → Bytes → List Bytes
  | _, [] => []
  | skip + 1, _ :: rest => recordIds skip rest
  | 0, b :: rest =>
    match idHere? (b :: rest) with
    | some digits => digits :: recordIds ((ascii "\"RecordId\":\"").length + digits.length) rest
    | none => recordIds 0 rest

/-- The ids that `get_recordid` prints, one to a line. -/
def getRecordid (reply : Bytes) : List Bytes := recordIds 0 reply

/-- `aliddns_record_id`, set to what `get_recordid` prints. -/
def recordIdText (reply : Bytes) : Bytes := [10].intercalate (getRecordid reply)

theorem idHere?_ne_nil {text digits : Bytes} (found : idHere? text = some digits) :
    digits ≠ [] := by
  dsimp only [idHere?] at found
  split at found
  · split at found
    · next whole =>
      obtain rfl := Option.some.inj found
      exact whole.1
    · contradiction
  · contradiction

/-- No record id is empty. -/
theorem ne_nil_of_mem_recordIds {n : ℕ} {text id : Bytes} (member : id ∈ recordIds n text) :
    id ≠ [] := by
  induction text generalizing n with
  | nil => cases n <;> simp [recordIds] at member
  | cons b rest ih =>
    cases n with
    | succ n => exact ih member
    | zero =>
      rw [recordIds] at member
      split at member
      · next found =>
        rcases List.mem_cons.mp member with rfl | later
        · exact idHere?_ne_nil found
        · exact ih later
      · exact ih member

/-- The variable is empty only if no id was printed. -/
theorem recordIdText_eq_nil {reply : Bytes} : recordIdText reply = [] ↔ getRecordid reply = [] := by
  unfold recordIdText
  constructor
  · intro empty
    rcases ids : getRecordid reply with _ | ⟨id, _ | ⟨next, more⟩⟩
    · rfl
    · rw [ids, List.intercalate_singleton] at empty
      exact absurd empty (ne_nil_of_mem_recordIds (ids ▸ List.mem_singleton_self id))
    · rw [ids, List.intercalate_cons_cons] at empty
      simp at empty
  · intro none_
    rw [none_]
    rfl

/-- The address that the script takes from the output of `nslookup`. -/
def currentIp (output : Bytes) : Bytes :=
  match (grep (ascii "Address 1") ((commandSubst output).splitOn 10)).getLast? with
  | none => []
  | some line => lastField line

/-- The last `if`. -/
def finish (ip recordId : Bytes) : Script :=
  .run (.write (if recordId = [] then .failed else .succeeded ip)) fun _ => .exit

/-- The second `if` on `aliddns_record_id`. -/
def addOrUpdate (cfg : Settings) (ip recordId : Bytes) : Script :=
  if recordId = [] then
    .run (.fetch (.add (aName1 cfg) (aDomain cfg) ip)) fun r => finish ip (recordIdText r.output)
  else .run (.fetch (.update (aName1 cfg) (firstWord recordId) ip)) fun _ => finish ip recordId

/-- The first `if` on `aliddns_record_id`. -/
def lookUp (cfg : Settings) (ip recordId : Bytes) : Script :=
  if recordId = [] then
    .run (.fetch (.query (aName1 cfg) (aDomain cfg))) fun r =>
      addOrUpdate cfg ip (recordIdText r.output)
  else addOrUpdate cfg ip recordId

def skip : Script := .run (.write .skipped) fun _ => .exit

/-- The `if` on the status of `nslookup`. -/
def compareIp (cfg : Settings) (ip : Bytes) (answer : Reply) : Script :=
  if answer.status = 0 then
    if ip = currentIp answer.output then skip else lookUp cfg ip cfg.recordId
  else lookUp cfg ip []

def resolve (cfg : Settings) (ip : Bytes) : Script :=
  .run (.nslookup (fields (if aName cfg = ascii "@" then aDomain cfg else cfg.domain) ++
    fields (dns cfg))) (compareIp cfg ip)

/-- `ip=… || die "$ip"`. `die` writes its message and returns. -/
def detected (cfg : Settings) (address : Reply) : Script :=
  let ip := commandSubst address.output
  if address.status = 0 then resolve cfg ip
  else .run (.write (.died ip)) fun _ => resolve cfg ip

/-- The script, from the test of `aliddns_enable` on. -/
def main (cfg : Settings) : Script :=
  if cfg.enable ≠ ascii "1" then .exit else .run (.address (fields (curl cfg))) (detected cfg)

end UpdateScript

end MerlinC.Model
