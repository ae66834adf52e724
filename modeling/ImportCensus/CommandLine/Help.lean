import ImportCensus.Text.Basic

namespace ImportCensus.CommandLine

def unlines (lines : List String) : Text := lines.flatMap fun line => line.toList ++ ['\n']

def shortHelpLines : List String :=
  [
    "A CLI that scans a source tree and lists the external packages its import statements reference",
    "",
    "Usage: importscan [OPTIONS]",
    "",
    "Options:",
    "      --root <DIR>           Root directory to scan [default: wahlzeit]",
    "      --ext <EXT>            File extension to scan [default: java]",
    "      --exclude <NAMESPACE>  Namespace whose imports are never reported [default: org.wahlzeit]",
    "      --skip-malformed       Skip import lines no reference can be derived from",
    "  -q, --quiet                Quiet mode (errors only on stderr)",
    "  -v, --verbose              Verbose mode (per-file diagnostics on stderr)",
    "  -h, --help                 Print help (see more with '--help')",
    "  -V, --version              Print version"]

def longHelpLines : List String :=
  [
    "importscan walks a source tree, finds lines containing an import",
    "statement (`import <name>;`) and prints each referenced package once, in the",
    "order it was first seen.",
    "",
    "Lines containing the excluded namespace (the project's own packages) are",
    "never reported.",
    "",
    "Static imports (`import static a.B.c;`) do not have that shape and abort",
    "the scan. Java trees usually contain them, the default wahlzeit tree included,",
    "so scan those with --skip-malformed.",
    "",
    "Examples:",
    "    importscan --skip-malformed",
    "    importscan --root wahlzeit/src --exclude org.wahlzeit",
    "    importscan --root app --ext kt --skip-malformed",
    "",
    "",
    "Usage: importscan [OPTIONS]",
    "",
    "Options:",
    "      --root <DIR>",
    "          Root directory to scan recursively.",
    "          ",
    "          The scan fails if the directory does not exist or cannot be read.",
    "          ",
    "          [default: wahlzeit]",
    "",
    "      --ext <EXT>",
    "          Only files whose name ends in .EXT are read.",
    "          ",
    "          A leading dot is accepted (--ext .java and --ext java are equivalent).",
    "          ",
    "          [default: java]",
    "",
    "      --exclude <NAMESPACE>",
    "          Any import line containing this substring is skipped entirely.",
    "          ",
    "          Pass an empty string to report every import.",
    "          ",
    "          [default: org.wahlzeit]",
    "",
    "      --skip-malformed",
    "          By default a matching line that does not have the shape",
    "          `import <name>;` (for example `import static a.B.c;`) aborts the scan.",
    "          With this flag such lines are reported on stderr and skipped.",
    "          ",
    "          The default wahlzeit tree has static imports and needs this flag.",
    "",
    "  -q, --quiet",
    "          Quiet mode (errors only on stderr)",
    "",
    "  -v, --verbose",
    "          Verbose mode (per-file diagnostics on stderr)",
    "",
    "  -h, --help",
    "          Print help (see a summary with '-h')",
    "",
    "  -V, --version",
    "          Print version"]

def help (long : Bool) : Text := unlines (if long then longHelpLines else shortHelpLines)

def version : Text := unlines ["importscan 0.1.0"]

end ImportCensus.CommandLine
