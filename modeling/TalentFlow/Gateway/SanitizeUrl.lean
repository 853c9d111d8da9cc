import TalentFlow.Gateway.Sanitize
import TalentFlow.Data.Url

/-!
# Gateway.SanitizeUrl

The part of `sanitize.util.ts` that masks query parameters in a URL before it is logged. The parser
is the one of `new URL(url, 'http://dummy.com')`.
-/

namespace TalentFlow.Sanitize

open Data.Percent Data.Url

/-- One turn of the loop over the sensitive keys. -/
def redactParam (parsed : UrlRecord) (key : String) : UrlRecord :=
  if parsed.searchParams.has key then parsed.set key "[REDACTED]" else parsed

def redactUrl (parsed : UrlRecord) : UrlRecord := SENSITIVE_KEYS.foldl redactParam parsed

def sanitizeUrl (parser : BaseParser) (url : String) : String :=
  if '?' ∈ url.toList then
    match parseUrl parser url.toList with
    | some parsed =>
      match decodeURIComponent ((redactUrl parsed).pathname ++ (redactUrl parsed).search) with
      | some result => String.ofList result
      | none => url
    | none => url
  else url

end TalentFlow.Sanitize
