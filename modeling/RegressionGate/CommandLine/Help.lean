/-! The help and version texts of the command line. -/

namespace RegressionGate.CommandLine

def versionText : String := "benchgate 0.1.0\n"

def shortHelpText : String :=
  String.join <| List.map (· ++ "\n")
    ["Check Criterion benchmark results for performance regressions",
      "",
      "Usage: benchgate [OPTIONS]",
      "",
      "Options:",
      "      --threshold <PCT>   Maximum allowed regression percentage (default: 10)",
      "      --baseline <NAME>   Baseline benchmark name (default: main)",
      "      --current <NAME>    Current benchmark name (default: pr)",
      "      --target-dir <DIR>  Cargo target directory (default: target)",
      "      --format <FORMAT>   Output format (text or json) [possible values: text, json]",
      "      --json              Output results as JSON (same as --format json)",
      "      --strict            Exit with error on any regression (regardless of threshold)",
      "      --config <FILE>     Read defaults from a TOML file; flags given on the command " ++
        "line win",
      "      --debug             Enable debug tracing on stderr",
      "  -h, --help              Print help (see more with '--help')",
      "  -V, --version           Print version"]

def longHelpText : String :=
  String.join <| List.map (· ++ "\n")
    ["Check Criterion benchmark results for performance regressions",
      "",
      "Usage: benchgate [OPTIONS]",
      "",
      "Options:",
      "      --threshold <PCT>",
      "          Maximum allowed regression percentage (default: 10)",
      "",
      "      --baseline <NAME>",
      "          Baseline benchmark name (default: main)",
      "",
      "      --current <NAME>",
      "          Current benchmark name (default: pr)",
      "",
      "      --target-dir <DIR>",
      "          Cargo target directory (default: target)",
      "",
      "      --format <FORMAT>",
      "          Output format (text or json)",
      "",
      "          Possible values:",
      "          - text: Human-readable text format (default)",
      "          - json: JSON format for machine parsing",
      "",
      "      --json",
      "          Output results as JSON (same as --format json)",
      "",
      "      --strict",
      "          Exit with error on any regression (regardless of threshold)",
      "",
      "      --config <FILE>",
      "          Read defaults from a TOML file; flags given on the command line win",
      "",
      "      --debug",
      "          Enable debug tracing on stderr",
      "",
      "  -h, --help",
      "          Print help (see a summary with '-h')",
      "",
      "  -V, --version",
      "          Print version"]

end RegressionGate.CommandLine
