/-
  A settings file to start from: every setting with its built-in value, commented out.
-/

namespace BranchProbe.Settings

/-- The text of a settings file to start from. -/
def template : String :=
  "# treejack configuration\n" ++
  "#\n" ++
  "# Locations (by precedence, lowest to highest):\n" ++
  "#   Global: ~/.config/treejack/treejack.toml\n" ++
  "#   Local:  ./.treejack.toml (or --config <file>)\n" ++
  "#   Env:    TREEJACK_* environment variables, e.g. TREEJACK_MAX_DEPTH=64,\n" ++
  "#           TREEJACK_RENDER__COLOR=false\n" ++
  "\n" ++
  "# Directory with additional example trees (*.json, name = file stem)\n" ++
  "# examples_dir = \"~/decision-trees\"\n" ++
  "\n" ++
  "# Depth guard for every tree walk\n" ++
  "# max_depth = 128\n" ++
  "\n" ++
  "# Default target of `treejack export`\n" ++
  "# export_file = \"path-results.json\"\n" ++
  "\n" ++
  "[render]\n" ++
  "# Highlight the active path in color\n" ++
  "# color = true\n" ++
  "\n" ++
  "# Print layout parameters below the rendered tree\n" ++
  "# show_layout = true\n"

end BranchProbe.Settings
