import MerlinC.Math.Splice
import MerlinC.Model.UpdateScript

/-! # The signed string and the sent query

Each request is a template into which values are spliced as they are, apart from the labels `*`
and `@` and the colons of the timestamp, which are encoded by hand. The provider reads the
parameters back from the URL and compares the signature with their canonical query. The two
agree exactly if no other spliced value has a character that would have to be encoded.
-/

namespace MerlinC.Soundness

open Math Model Model.Shell Model.UpdateScript

/-- A configured domain of three labels. -/
structure ThreeLabels where
  host : Bytes
  second : Bytes
  top : Bytes
  labels : ∀ label ∈ [host, second, top], dot ∉ label

/-- The part without the host. -/
def ThreeLabels.zone (d : ThreeLabels) : Bytes := d.second ++ dot :: d.top

def ThreeLabels.text (d : ThreeLabels) : Bytes := d.host ++ dot :: d.zone

/-- What the script asks the provider for. -/
inductive Purpose where
  | query
  | update (recordId ip : Bytes)
  | add (ip : Bytes)

/-- The request that the script sends for a purpose. -/
def Purpose.request (cfg : Settings) : Purpose → Request
  | query => .query (aName1 cfg) (aDomain cfg)
  | update recordId ip => .update (aName1 cfg) (firstWord recordId) ip
  | add ip => .add (aName1 cfg) (aDomain cfg) ip

/-- The script sends this request, now or after some replies. -/
inductive Sends : Script → Request → Prop
  | now {r : Request} {next : Reply → Script} : Sends (.run (.fetch r) next) r
  | later {c : Command} {next : Reply → Script} {reply : Reply} {r : Request}
      (rest : Sends (next reply) r) : Sends (.run c next) r

section Sends

variable {cfg : Settings} {r : Request}

theorem not_sends_finish {ip recordId : Bytes} : ¬ Sends (finish ip recordId) r := by
  intro sends
  cases sends with
  | later rest => cases rest

theorem purpose_of_addOrUpdate {ip recordId : Bytes}
    (sends : Sends (addOrUpdate cfg ip recordId) r) :
    ∃ purpose : Purpose, r = purpose.request cfg := by
  unfold addOrUpdate at sends
  split at sends
  · cases sends with
    | now => exact ⟨.add ip, rfl⟩
    | later rest => exact absurd rest not_sends_finish
  · cases sends with
    | now => exact ⟨.update recordId ip, rfl⟩
    | later rest => exact absurd rest not_sends_finish

theorem purpose_of_lookUp {ip recordId : Bytes} (sends : Sends (lookUp cfg ip recordId) r) :
    ∃ purpose : Purpose, r = purpose.request cfg := by
  unfold lookUp at sends
  split at sends
  · cases sends with
    | now => exact ⟨.query, rfl⟩
    | later rest => exact purpose_of_addOrUpdate rest
  · exact purpose_of_addOrUpdate sends

theorem purpose_of_compareIp {ip : Bytes} {answer : Reply}
    (sends : Sends (compareIp cfg ip answer) r) :
    ∃ purpose : Purpose, r = purpose.request cfg := by
  unfold compareIp at sends
  split at sends
  · split at sends
    · cases sends with
      | later rest => cases rest
    · exact purpose_of_lookUp sends
  · exact purpose_of_lookUp sends

theorem purpose_of_resolve {ip : Bytes} (sends : Sends (resolve cfg ip) r) :
    ∃ purpose : Purpose, r = purpose.request cfg := by
  cases sends with
  | later rest => exact purpose_of_compareIp rest

/-- The script sends no other requests. -/
theorem purpose_of_sends (sends : Sends (main cfg) r) :
    ∃ purpose : Purpose, r = purpose.request cfg := by
  unfold main at sends
  split at sends
  · cases sends
  · cases sends with
    | later rest =>
      dsimp only [detected] at rest
      split at rest
      · exact purpose_of_resolve rest
      · cases rest with
        | later rest => exact purpose_of_resolve rest

end Sends

/-- The time of a run, in the words of the provider. -/
def time (clock : Clock) : Bytes :=
  clock.date ++ ascii "T" ++ clock.hour ++ ascii ":" ++ clock.minute ++ ascii ":" ++
    clock.second ++ ascii "Z"

/-- The parameters that are meant, each with its configured value. -/
def wanted (cfg : Settings) (clock : Clock) (d : ThreeLabels) : Purpose → Params
  | .query => [
    (ascii "AccessKeyId", cfg.ak),
    (ascii "Action", ascii "DescribeSubDomainRecords"),
    (ascii "Format", ascii "json"),
    (ascii "SignatureMethod", ascii "HMAC-SHA1"),
    (ascii "SignatureNonce", time clock),
    (ascii "SignatureVersion", ascii "1.0"),
    (ascii "SubDomain", d.text),
    (ascii "Timestamp", time clock),
    (ascii "Version", ascii "2015-01-09")]
  | .update recordId ip => [
    (ascii "AccessKeyId", cfg.ak),
    (ascii "Action", ascii "UpdateDomainRecord"),
    (ascii "Format", ascii "json"),
    (ascii "RR", d.host),
    (ascii "RecordId", recordId),
    (ascii "SignatureMethod", ascii "HMAC-SHA1"),
    (ascii "SignatureNonce", time clock),
    (ascii "SignatureVersion", ascii "1.0"),
    (ascii "TTL", ttl cfg),
    (ascii "Timestamp", time clock),
    (ascii "Type", ascii "A"),
    (ascii "Value", ip),
    (ascii "Version", ascii "2015-01-09")]
  | .add ip => [
    (ascii "AccessKeyId", cfg.ak),
    (ascii "Action", ascii "AddDomainRecord"),
    (ascii "DomainName", d.zone),
    (ascii "Format", ascii "json"),
    (ascii "RR", d.host),
    (ascii "SignatureMethod", ascii "HMAC-SHA1"),
    (ascii "SignatureNonce", time clock),
    (ascii "SignatureVersion", ascii "1.0"),
    (ascii "TTL", ttl cfg),
    (ascii "Timestamp", time clock),
    (ascii "Type", ascii "A"),
    (ascii "Value", ip),
    (ascii "Version", ascii "2015-01-09")]

/-- The parameters that the provider reads from a URL, without the signature. -/
def received (url : Bytes) : Params :=
  (parseQuery ((url.dropWhile (· ≠ 63)).drop 1)).filter fun p => p.1 ≠ ascii "Signature"

/-- The provider reads what was meant, and finds it signed. -/
def Agrees (sign : Bytes → Bytes → Bytes) (cfg : Settings) (clock : Clock) (d : ThreeLabels)
    (purpose : Purpose) : Prop :=
  let m := received (url sign cfg clock (purpose.request cfg))
  m.Perm (wanted cfg clock d purpose) ∧
    stringToSign cfg clock (purpose.request cfg) =
      ascii "GET&%2F&" ++ percentEncode unreserved (canonicalQuery m)

/-- A value without a character that `urlencode` would encode. -/
def Plain (value : Bytes) : Prop := ∀ b ∈ value, plain b = true

instance (value : Bytes) : Decidable (Plain value) :=
  decidable_of_iff (value.all plain = true) List.all_eq_true

/-- A host that is plain, or one of the two that the script encodes by hand. -/
def PlainHost (host : Bytes) : Prop := Plain host ∨ host = ascii "*" ∨ host = ascii "@"

/-- The values of a request are plain. -/
def PlainValues (cfg : Settings) (d : ThreeLabels) : Purpose → Prop
  | .query => Plain cfg.ak ∧ PlainHost d.host ∧ Plain d.zone
  | .update recordId ip =>
    Plain cfg.ak ∧ PlainHost d.host ∧ Plain recordId ∧ Plain (ttl cfg) ∧ Plain ip
  | .add ip => Plain cfg.ak ∧ Plain d.zone ∧ PlainHost d.host ∧ Plain (ttl cfg) ∧ Plain ip

instance (host : Bytes) : Decidable (PlainHost host) :=
  inferInstanceAs (Decidable (_ ∨ _ ∨ _))

theorem cautious : Cautious plain where
  keeps b kept := by
    rw [plain, Bool.or_eq_true] at kept
    rw [unreserved, Bool.or_eq_true]
    refine kept.imp_right fun mark => ?_
    have marks : (ascii "._-").all [45, 95, 46, 126].contains = true := by decide
    exact List.all_eq_true.mp marks b (List.contains_iff_mem.mp mark)
  alphanumerics _ := plain_of_alphanumeric

section Domain

theorem solid_of_plain {b : UInt8} (kept : plain b = true) : blank b = false := by
  rw [← Bool.not_eq_true]
  intro separator
  rw [blank_not_plain b separator] at kept
  contradiction

theorem Plain.solid {value : Bytes} (plain_ : Plain value) : ∀ b ∈ value, blank b = false :=
  fun b member => solid_of_plain (plain_ b member)

theorem Plain.append {first second : Bytes} :
    Plain (first ++ second) ↔ Plain first ∧ Plain second := List.forall_mem_append

/-- Word splitting leaves the dots alone. -/
theorem dot_not_mem {label label' : Bytes} (whole : dot ∉ label)
    (same : label'.filter (!blank ·) = label.filter (!blank ·)) : dot ∉ label' := by
  intro member
  have kept : dot ∈ label'.filter (!blank ·) := List.mem_filter.mpr ⟨member, rfl⟩
  rw [same] at kept
  exact whole (List.mem_filter.mp kept).1

variable {cfg : Settings} {d : ThreeLabels}

/-- The labels that `cut` finds, of a host that may have lost options of `echo`. -/
theorem splitOn_domain (configured : cfg.domain = d.text) : ∃ host, host <:+ d.host ∧
    ((∀ b ∈ d.host, blank b = false) → host = d.host) ∧
    (echo cfg.domain).splitOn dot =
      [squeeze .start host, squeeze .word d.second, echoWords .word d.top] := by
  have text : cfg.domain = d.host ++ dot :: d.zone := configured
  obtain ⟨host, back, printed, whole⟩ :=
    dropOptions_append_cons (b := dot) rfl (by decide) cfg.domain.length d.host d.zone
  rw [← text] at printed
  refine ⟨host, back, whole, ?_⟩
  have inside : dot ∉ host := fun member => d.labels d.host (by simp) (back.subset member)
  have first := dot_not_mem inside (filter_squeeze .start host)
  have second := dot_not_mem (d.labels d.second (by simp)) (filter_squeeze .word d.second)
  have top := dot_not_mem (d.labels d.top (by simp)) (filter_echoWords .word d.top)
  rw [echo, printed, echoWords_append_cons rfl, ThreeLabels.zone,
    echoWords_append_cons rfl, List.splitOn_append_cons_self, List.splitOn_append_cons_self,
    List.splitOn_eq_singleton first, List.splitOn_eq_singleton second,
    List.splitOn_eq_singleton top]
  rfl

theorem aName_eq (configured : cfg.domain = d.text) : ∃ host, host <:+ d.host ∧
    ((∀ b ∈ d.host, blank b = false) → host = d.host) ∧ aName cfg = squeeze .start host := by
  obtain ⟨host, back, whole, fields⟩ := splitOn_domain configured
  refine ⟨host, back, whole, ?_⟩
  rw [aName, cutField, fields]
  rfl

theorem aDomain_eq (configured : cfg.domain = d.text) :
    aDomain cfg = squeeze .word d.second ++ dot :: echoWords .word d.top := by
  obtain ⟨host, -, -, fields⟩ := splitOn_domain configured
  rw [aDomain, cutField, cutField, fields]
  rfl

end Domain

section Values

variable {cfg : Settings} {d : ThreeLabels}

theorem spliced_plain (value : Bytes) : Spliced plain value value (Plain value) :=
  cautious.spliced_exact value

theorem spliced_recordId (recordId : Bytes) :
    Spliced plain (firstWord recordId) recordId (Plain recordId) :=
  (spliced_plain recordId).of_shorter (length_encode_firstWord plain recordId)
    fun plain_ => firstWord_solid plain_.solid

theorem spliced_zone (configured : cfg.domain = d.text) :
    Spliced plain (aDomain cfg) d.zone (Plain d.zone) := by
  have first := length_encode_squeeze blank_not_plain .word d.second
  have last := length_encode_echoWords blank_not_plain .word d.top
  simp only [reduceCtorEq, ↓reduceIte, Nat.add_zero] at first last
  rw [aDomain_eq configured]
  refine (spliced_plain d.zone).of_shorter ?_ fun plain_ => ?_
  · rw [ThreeLabels.zone, percentEncode_append, percentEncode_append, List.length_append,
      List.length_append, length_percentEncode_cons, length_percentEncode_cons]
    omega
  · obtain ⟨second, rest⟩ := Plain.append.mp plain_
    have top : Plain d.top := fun b member => rest b (List.mem_cons_of_mem _ member)
    rw [squeeze_solid (by decide) second.solid, echoWords_solid (by decide) top.solid]
    rfl

theorem solid_single {b : UInt8} (solid : blank b = false) : ∀ c ∈ [b], blank c = false := by
  intro c member
  rw [List.mem_singleton.mp member, solid]

theorem squeeze_single {b : UInt8} (solid : blank b = false) : squeeze .start [b] = [b] :=
  squeeze_solid (by decide) (solid_single solid)

/-- A host of which `echo` leaves one character to be encoded is sent as its escape. -/
theorem spliced_special {b : UInt8} {host left : Bytes} (back : left <:+ host)
    (whole : (∀ c ∈ host, blank c = false) → left = host)
    (special : [b] = ascii "*" ∨ [b] = ascii "@") (printed : squeeze .start left = [b]) :
    Spliced plain (escape b) host (PlainHost host) := by
  have solid : blank b = false := by
    rcases special with star | at_
    · cases star
      rfl
    · cases at_
      rfl
  have reserved : unreserved b = false := by
    rcases special with star | at_
    · cases star
      rfl
    · cases at_
      rfl
  have inside : b ∈ host := by
    have kept : b ∈ left.filter (!blank ·) := by
      rw [← filter_squeeze .start left, printed, List.mem_filter, solid]
      exact ⟨List.mem_singleton_self b, rfl⟩
    exact back.subset (List.mem_filter.mp kept).1
  have same {c : UInt8} (solid' : blank c = false) (single : host = [c]) : host = [b] := by
    have solid_ : ∀ e ∈ host, blank e = false := by
      rw [single]
      exact List.forall_mem_singleton.mpr solid'
    rw [whole solid_, single, squeeze_single solid'] at printed
    rw [single, printed]
  refine (cautious.spliced_escape reserved inside).congr ⟨fun whole => ?_, ?_⟩
  · rw [whole]
    exact .inr special
  · rintro (plain_ | star | at_)
    · have kept := cautious.keeps b (plain_ b inside)
      rw [reserved] at kept
      contradiction
    · exact same rfl star
    · exact same rfl at_

theorem spliced_host (configured : cfg.domain = d.text) :
    Spliced plain (aName1 cfg) d.host (PlainHost d.host) := by
  obtain ⟨left, back, whole, printed⟩ := aName_eq configured
  rw [aName1, printed]
  split
  · next star => exact spliced_special back whole (.inl rfl) star
  · split
    · next at_ => exact spliced_special back whole (.inr rfl) at_
    · next star at_ =>
      have only : PlainHost d.host ↔ Plain d.host := by
        refine ⟨?_, .inl⟩
        rintro (plain_ | single | single)
        · exact plain_
        · exact absurd (by rw [whole (single ▸ solid_single rfl), single]; rfl) star
        · exact absurd (by rw [whole (single ▸ solid_single rfl), single]; rfl) at_
      have shorter := length_encode_squeeze blank_not_plain .start left
      have suffix_ := (percentEncode_back plain back).length_le
      refine ((spliced_plain d.host).of_shorter (Nat.le_trans shorter suffix_)
        fun plain_ => ?_).congr only.symm
      rw [whole plain_.solid]
      exact squeeze_solid (by decide) plain_.solid

/-- The timestamp is encoded by hand. -/
theorem spliced_time (clock : Clock) : Spliced plain (timestamp clock) (time clock) True := by
  have kept (part : Bytes) (among : part ∈ [clock.date, clock.hour, clock.minute, clock.second]) :
      Plain part := List.all_eq_true.mp (clock.plain part among)
  have date := kept clock.date (by simp)
  have hour := kept clock.hour (by simp)
  have minute := kept clock.minute (by simp)
  have second := kept clock.second (by simp)
  have letter : Plain (ascii "T") := by decide
  have last : Plain (ascii "Z") := by decide
  have colon : Alike plain (ascii ":") := fun b member => by
    rw [List.mem_singleton.mp member]
    rfl
  have same : timestamp clock = percentEncode unreserved (time clock) := by
    simp only [time, percentEncode_append, cautious.percentEncode_kept date,
      cautious.percentEncode_kept hour, cautious.percentEncode_kept minute,
      cautious.percentEncode_kept second]
    rfl
  rw [same]
  apply cautious.spliced_encoded
  simp only [time, Alike.append]
  exact ⟨⟨⟨⟨⟨⟨⟨cautious.alike_of_kept date, cautious.alike_of_kept letter⟩,
    cautious.alike_of_kept hour⟩, colon⟩, cautious.alike_of_kept minute⟩, colon⟩,
    cautious.alike_of_kept second⟩, cautious.alike_of_kept last⟩

end Values

section Templates

variable {cfg : Settings} {d : ThreeLabels}

/-- A parameter with a fixed value. -/
def fixed (name value : Bytes) (named : Plain name)
    (plain_ : Plain value) : Entry plain where
  name := name
  value := value
  sent := value
  fits := True
  named := named
  spliced := (spliced_plain value).congr ⟨fun _ => trivial, fun _ => plain_⟩

/-- A parameter with a value that is sent as it is. -/
def verbatim (name value : Bytes) (named : Plain name) : Entry plain where
  name := name
  value := value
  sent := value
  fits := Plain value
  named := named
  spliced := spliced_plain value

/-- A parameter with the timestamp. -/
def timed (clock : Clock) (name : Bytes) (named : Plain name) : Entry plain where
  name := name
  value := time clock
  sent := timestamp clock
  fits := True
  named := named
  spliced := spliced_time clock

/-- The `RR` parameter. -/
def hostEntry (configured : cfg.domain = d.text) : Entry plain where
  name := ascii "RR"
  value := d.host
  sent := aName1 cfg
  fits := PlainHost d.host
  named := (by decide : Plain (ascii "RR"))
  spliced := spliced_host configured

/-- The templates of the three requests. -/
def template (clock : Clock) (configured : cfg.domain = d.text) : Purpose → List (Entry plain)
  | .query => [
    verbatim (ascii "AccessKeyId") cfg.ak (by decide),
    fixed (ascii "Action") (ascii "DescribeSubDomainRecords") (by decide) (by decide),
    fixed (ascii "Format") (ascii "json") (by decide) (by decide),
    fixed (ascii "SignatureMethod") (ascii "HMAC-SHA1") (by decide) (by decide),
    timed clock (ascii "SignatureNonce") (by decide),
    fixed (ascii "SignatureVersion") (ascii "1.0") (by decide) (by decide),
    { name := ascii "SubDomain"
      value := d.text
      sent := aName1 cfg ++ (ascii "." ++ aDomain cfg)
      fits := PlainHost d.host ∧ Plain (ascii ".") ∧ Plain d.zone
      named := (by decide : Plain (ascii "SubDomain"))
      spliced := (spliced_host configured).append
        ((spliced_plain (ascii ".")).append (spliced_zone configured)) },
    timed clock (ascii "Timestamp") (by decide),
    fixed (ascii "Version") (ascii "2015-01-09") (by decide) (by decide)]
  | .update recordId ip => [
    verbatim (ascii "AccessKeyId") cfg.ak (by decide),
    fixed (ascii "Action") (ascii "UpdateDomainRecord") (by decide) (by decide),
    fixed (ascii "Format") (ascii "json") (by decide) (by decide),
    hostEntry configured,
    { name := ascii "RecordId"
      value := recordId
      sent := firstWord recordId
      fits := Plain recordId
      named := (by decide : Plain (ascii "RecordId"))
      spliced := spliced_recordId recordId },
    fixed (ascii "SignatureMethod") (ascii "HMAC-SHA1") (by decide) (by decide),
    timed clock (ascii "SignatureNonce") (by decide),
    fixed (ascii "SignatureVersion") (ascii "1.0") (by decide) (by decide),
    verbatim (ascii "TTL") (ttl cfg) (by decide),
    timed clock (ascii "Timestamp") (by decide),
    fixed (ascii "Type") (ascii "A") (by decide) (by decide),
    verbatim (ascii "Value") ip (by decide),
    fixed (ascii "Version") (ascii "2015-01-09") (by decide) (by decide)]
  | .add ip => [
    verbatim (ascii "AccessKeyId") cfg.ak (by decide),
    fixed (ascii "Action") (ascii "AddDomainRecord") (by decide) (by decide),
    { name := ascii "DomainName"
      value := d.zone
      sent := aDomain cfg
      fits := Plain d.zone
      named := (by decide : Plain (ascii "DomainName"))
      spliced := spliced_zone configured },
    fixed (ascii "Format") (ascii "json") (by decide) (by decide),
    hostEntry configured,
    fixed (ascii "SignatureMethod") (ascii "HMAC-SHA1") (by decide) (by decide),
    timed clock (ascii "SignatureNonce") (by decide),
    fixed (ascii "SignatureVersion") (ascii "1.0") (by decide) (by decide),
    verbatim (ascii "TTL") (ttl cfg) (by decide),
    timed clock (ascii "Timestamp") (by decide),
    fixed (ascii "Type") (ascii "A") (by decide) (by decide),
    verbatim (ascii "Value") ip (by decide),
    fixed (ascii "Version") (ascii "2015-01-09") (by decide) (by decide)]

variable (clock : Clock) (configured : cfg.domain = d.text) (purpose : Purpose)

theorem intended_template :
    Entry.intended (template clock configured purpose) = wanted cfg clock d purpose := by
  cases purpose <;> rfl

set_option maxRecDepth 1024 in
/-- `send_request` renders its template. -/
theorem query_template : Entry.query (template clock configured purpose) =
    args cfg clock (purpose.request cfg) := by
  cases purpose <;>
    simp only [Entry.query, template, fixed, verbatim, timed, hostEntry, render, renderPair,
      List.map_cons, List.map_nil, List.intercalate_cons_cons, List.intercalate_singleton,
      Purpose.request, args, action, parameters, signature, List.append_assoc, List.cons_append]
  · rfl
  · rfl
  · rfl

theorem fits_template : (∀ entry ∈ template clock configured purpose, entry.fits) ↔
    PlainValues cfg d purpose := by
  have dot_ : Plain (ascii ".") := by decide
  cases purpose <;>
    simp [template, fixed, verbatim, timed, hostEntry, PlainValues, dot_]

/-- The templates are in the order of the names. -/
theorem sorted_wanted : (wanted cfg clock d purpose).Pairwise fun p q => byName p q = true := by
  have names : ((wanted cfg clock d purpose).map (·.1)).Pairwise fun a b => nameLe a b = true := by
    cases purpose <;> simp only [wanted, List.map_cons, List.map_nil] <;> decide
  exact List.pairwise_map.mp names

/-- No parameter is given twice, and none is the signature. -/
theorem names_wanted : ((wanted cfg clock d purpose).map (·.1)).Nodup ∧
    ascii "Signature" ∉ (wanted cfg clock d purpose).map (·.1) := by
  cases purpose <;> simp only [wanted, List.map_cons, List.map_nil] <;> decide

end Templates

section Agreement

variable {sign : Bytes → Bytes → Bytes} {cfg : Settings} {clock : Clock} {d : ThreeLabels}
  {purpose : Purpose}

/-- The provider reads the arguments, whatever the signature is. -/
theorem received_url (sign : Bytes → Bytes → Bytes) (cfg : Settings) (clock : Clock)
    (r : Request) : received (url sign cfg clock r) =
      (parseQuery (args cfg clock r)).filter fun p => p.1 ≠ ascii "Signature" := by
  obtain ⟨hash, whole⟩ : ∃ hash, url sign cfg clock r = ascii "http://alidns.aliyuncs.com/" ++
      63 :: (args cfg clock r ++ ampersand ::
        (ascii "Signature" ++ equals :: commandSubst (enc hash))) := by
    have path : ascii "http://alidns.aliyuncs.com/?" =
        ascii "http://alidns.aliyuncs.com/" ++ [63] := by decide
    have last : ascii "&Signature=" = [ampersand] ++ ascii "Signature" ++ [equals] := by decide
    refine ⟨commandSubst (sign (stringToSign cfg clock r) (cfg.sk ++ ascii "&")), ?_⟩
    simp only [url, path, last, List.append_assoc, List.cons_append, List.nil_append]
  have front : ∀ b ∈ ascii "http://alidns.aliyuncs.com/", decide (b ≠ 63) = true :=
    List.all_eq_true.mp (by decide)
  have name : ∀ b ∈ ascii "Signature", decide (b ≠ equals) = true :=
    List.all_eq_true.mp (by decide)
  have piece : ampersand ∉ ascii "Signature" ++ equals :: commandSubst (enc hash) := by
    rw [List.mem_append, List.mem_cons, not_or, not_or]
    refine ⟨by decide, by decide, fun member => ?_⟩
    rcases mem_enc member with kept | escaped
    · exact absurd kept (by decide)
    · exact absurd escaped (by decide)
  have signature_ : (parsePair (ascii "Signature" ++ equals :: commandSubst (enc hash))).1 =
      ascii "Signature" := by
    rw [parsePair, List.takeWhile_append_of_pos name, List.takeWhile_cons_of_neg (by decide),
      List.append_nil]
    change percentDecode (ascii "Signature") = ascii "Signature"
    decide
  rw [received, whole, List.dropWhile_append_of_pos front, List.dropWhile_cons_of_neg (by decide),
    List.drop_one, List.tail_cons, parseQuery_append _ _ piece, List.filter_append,
    List.filter_cons_of_neg (by simp [signature_]), List.filter_nil, List.append_nil]

/-- What is signed is the encoded arguments. -/
theorem stringToSign_eq (r : Request) : stringToSign cfg clock r =
    ascii "GET&%2F&" ++ commandSubst (enc (args cfg clock r)) := echoN_of_ne (by decide) _

theorem expected_template (configured : cfg.domain = d.text) {m : Params}
    (perm : m.Perm (wanted cfg clock d purpose)) :
    canonicalQuery m = Entry.expected (template clock configured purpose) := by
  rw [canonicalQuery_perm perm (sorted_wanted clock purpose) (names_wanted clock purpose).1,
    Entry.expected, intended_template]

/-- If the two agree, then all values are plain. -/
theorem plain_of_agrees (configured : cfg.domain = d.text)
    (agrees : Agrees sign cfg clock d purpose) : PlainValues cfg d purpose := by
  obtain ⟨perm, signed⟩ := agrees
  rw [stringToSign_eq, List.append_cancel_left_eq, expected_template configured perm] at signed
  rw [← fits_template clock configured]
  refine Entry.fits_of_eq cautious signed ?_ fun b member kept => ?_
  · rw [query_template]
    exact length_enc_le _
  · rcases mem_enc member with plain_ | rfl
    · exact plain_
    · exact absurd kept (by decide)

/-- If all values are plain, then the two agree. -/
theorem agrees_of_plain (configured : cfg.domain = d.text) (plain_ : PlainValues cfg d purpose) :
    Agrees sign cfg clock d purpose := by
  rw [← fits_template clock configured] at plain_
  have sent := Entry.query_eq_expected cautious plain_
  have read : received (url sign cfg clock (purpose.request cfg)) =
      wanted cfg clock d purpose := by
    have some_ : wanted cfg clock d purpose ≠ [] := by cases purpose <;> exact List.cons_ne_nil _ _
    rw [received_url, ← query_template clock configured, sent, Entry.expected, intended_template,
      parseQuery_render some_, List.filter_eq_self]
    intro p member
    apply decide_eq_true
    intro same
    exact (names_wanted clock purpose).2 (List.mem_map.mpr ⟨p, member, same⟩)
  have mem {b : UInt8} (member : b ∈ args cfg clock (purpose.request cfg)) :
      plain b = true ∨ b = ampersand ∨ b = equals ∨ b = percent := by
    rw [← query_template clock configured] at member
    rcases Entry.mem_query plain_ member with kept | amp | eq | per | letter
    · exact .inl kept
    · exact .inr (.inl amp)
    · exact .inr (.inr (.inl eq))
    · exact .inr (.inr (.inr per))
    · exact .inl (plain_of_alphanumeric letter)
  unfold Agrees
  rw [read]
  refine ⟨.refl _, ?_⟩
  rw [stringToSign_eq, List.append_cancel_left_eq, expected_template configured (.refl _), ← sent,
    query_template]
  obtain ⟨rest, first⟩ : ∃ rest, args cfg clock (purpose.request cfg) = 65 :: rest := by
    simp only [args, List.append_assoc]
    exact ⟨_, rfl⟩
  have solid : ∀ b ∈ args cfg clock (purpose.request cfg), b ≠ backslash ∧ blank b = false := by
    intro b member
    rcases mem member with kept | rfl | rfl | rfl
    · refine ⟨?_, solid_of_plain kept⟩
      rintro rfl
      exact absurd kept (by decide)
    · decide
    · decide
    · decide
  rw [first] at solid ⊢
  rw [enc_eq rfl solid, ← first]
  refine percentEncode_congr fun b member => ?_
  rcases mem member with kept | rfl | rfl | rfl
  · rw [kept, cautious.keeps b kept]
  · rfl
  · rfl
  · rfl

/-- The signed string and the sent query agree if and only if all values are plain. -/
theorem signed_query_iff (configured : cfg.domain = d.text) :
    Agrees sign cfg clock d purpose ↔ PlainValues cfg d purpose :=
  ⟨plain_of_agrees configured, agrees_of_plain configured⟩

end Agreement

/-- The domain `*.example.com`. -/
def wildcard : ThreeLabels where
  host := ascii "*"
  second := ascii "example"
  top := ascii "com"
  labels := by decide

/-- Noon of a day. -/
def noon : Clock where
  date := ascii "2024-05-06"
  hour := ascii "12"
  minute := ascii "00"
  second := ascii "00"
  plain := by decide

/-- An address record for all hosts can be added. -/
theorem signed_query_iff_wildcard : Agrees (fun _ _ => ascii "bm9uZQ==")
    (.forDomain (ascii "*.example.com")) noon wildcard (.add (ascii "1.2.3.4")) := by
  have values : PlainValues (.forDomain (ascii "*.example.com")) wildcard
      (.add (ascii "1.2.3.4")) := by
    refine ⟨?_, ?_, ?_, ?_, ?_⟩ <;> decide
  exact (signed_query_iff rfl).mpr values

/-- The domain `家.example.com`, in UTF-8. -/
def home : ThreeLabels where
  host := [0xE5, 0xAE, 0xB6]
  second := ascii "example"
  top := ascii "com"
  labels := by decide

/-- With a host that is not ASCII, already the query is signed wrongly. -/
theorem signed_query_fails : ¬ ∀ (sign : Bytes → Bytes → Bytes) (cfg : Settings) (clock : Clock)
    (d : ThreeLabels) (purpose : Purpose), cfg.domain = d.text →
    Agrees sign cfg clock d purpose := by
  intro agrees
  have values := plain_of_agrees rfl
    (agrees (fun _ _ => []) (.forDomain home.text) noon home .query rfl)
  have host : ¬ PlainHost home.host := by decide
  exact host values.2.1

end MerlinC.Soundness
